import NovelScript.Proofs.Machine.Conditions
import NovelScript.Proofs.Machine.Params

/-!
# The rounds of the commands that repeat

The terms of a condition, the operands of a subroutine command and the fields of a tag are read one
by one, in as many rounds as there are bytes left at most. Every round that another one follows
takes a byte, so that this bound is never reached: with any larger bound the command does the same.
-/

namespace NovelScript.Machine

open NovelScript.Action (Keeps Reaches)
open NovelScript.Operand (Scope Reader Inside)

variable {s : Script} {start : Nat} {m : Machine} {α : Type}

/-! ## How far reading comes -/

/-- The machine is in the script and reads on from the address `start` or from behind it. -/
structure ReadsFrom (s : Script) (start : Nat) (m : Machine) : Prop where
  /-- It is in the script. -/
  script_eq : m.script = s
  /-- It does not stand before the address. -/
  ge : start ≤ m.cursor

namespace ReadsFrom

/-- Reading goes on inside the script. -/
theorem le_size (h : ReadsFrom s start m) : start ≤ s.size :=
  h.script_eq ▸ h.ge.trans (Nat.min_le_right _ _)

/-- Moving to an address in the script. -/
theorem move (h : ReadsFrom s start m) {stop pc : Nat} (hpc : stop ≤ pc) (hsize : stop ≤ s.size) :
    ReadsFrom s stop { m with pc } :=
  ⟨h.script_eq, Nat.le_min.mpr ⟨hpc, h.script_eq ▸ hsize⟩⟩

/-- Behind a byte that was taken, one round less is left, and one byte less. -/
theorem size_lt {m' : Machine} {count : Nat} (h : ReadsFrom m.script (m.cursor + 1) m')
    (hcount : m.script.size < m.cursor + (count + 1)) : m'.script.size < m'.cursor + count := by
  have hge := h.ge
  rw [h.script_eq]
  omega

/-- Blanks are passed over first. -/
theorem le_skipBlanks (h : ReadsFrom s start m) : start ≤ m.script.skipBlanks m.cursor :=
  h.ge.trans (m.script.le_skipBlanks _)

end ReadsFrom

/-- A bound that exceeds the number of bytes left allows a round. -/
theorem exists_succ_of_size_lt {count : Nat} (h : m.script.size < m.cursor + count) :
    ∃ rest, count = rest + 1 := by
  have hcursor : m.cursor ≤ m.script.size := Nat.min_le_right _ _
  exact ⟨count - 1, by omega⟩

/-- An operand takes as many bytes as its reader does. -/
theorem readsFrom_operand {read : Scope → Reader α} {stop : Nat}
    (hread : ∀ scope : Scope, scope.script = s →
      Reaches (Inside s start) (fun _ => Inside s stop) (read scope)) :
    Reaches (ReadsFrom s start) (fun _ => ReadsFrom s stop) (operand read) := by
  refine .get fun m hm => ?_
  have hcursor : Inside s start { pos := m.cursor } :=
    ⟨hm.ge, hm.script_eq ▸ Nat.min_le_right _ _⟩
  have hwarn (warnings : List Warning) : Keeps (ReadsFrom s start) (warnAll warnings) :=
    keeps_warnAll_of (fun _ _ _ h => ⟨h.script_eq, h.ge⟩) warnings
  cases hrun : (read m.scope).run { pos := m.cursor } with
  | error fault after =>
    exact .bind (hwarn after.warnings).reaches fun _ => .throw _
  | ok value after =>
    have hafter : Inside s stop after := hread m.scope hm.script_eq hcursor hrun
    have hbehind : stop ≤ m.script.skipBlanks
        (m.script.eat Byte.comma (m.script.skipBlanks after.pos)) :=
      hafter.ge.trans ((m.script.le_skipBlanks _).trans
        ((m.script.le_eat _ _).trans (m.script.le_skipBlanks _)))
    refine .bind (hwarn after.warnings).reaches fun _ => .bind (.modify fun _ h => ?_) fun _ => .pure fun _ h => h
    exact h.move hbehind (hafter.ge.trans hafter.le)

/-- A reference to a variable takes at least its sigil. -/
theorem readsFrom_readVarRef :
    Reaches (ReadsFrom s start) (fun _ => ReadsFrom s (start + 1)) readVarRef := by
  refine readsFrom_operand fun scope hscope => ?_
  subst hscope
  exact scope.reaches_varRef.imp (fun _ h => ⟨h.ge, h.le⟩) fun _ _ h => ⟨h.1, h.2⟩

/-- A string expression is not read backwards. -/
theorem readsFrom_readStr : Reaches (ReadsFrom s start) (fun _ => ReadsFrom s start) readStr :=
  readsFrom_operand fun scope hscope => hscope ▸ scope.keeps_str.reaches

/-- Nor is an integer expression. -/
theorem readsFrom_readInt : Reaches (ReadsFrom s start) (fun _ => ReadsFrom s start) readInt :=
  readsFrom_operand fun scope hscope => hscope ▸ scope.keeps_int.reaches

/-- Nor is a label. -/
theorem readsFrom_readLabel : Reaches (ReadsFrom s start) (fun _ => ReadsFrom s start) readLabel :=
  readsFrom_operand fun scope hscope => hscope ▸ scope.keeps_label.reaches

/-- Nor is a keyword. -/
theorem readsFrom_eatKeyword (word : String) :
    Reaches (ReadsFrom s start) (fun _ => ReadsFrom s start) (eatKeyword word) := by
  refine .get fun m hm => ?_
  cases hword : m.script.keyword? word (m.script.skipBlanks m.cursor) with
  | none => exact .pure fun _ h => h
  | some after =>
    have hafter : start ≤ after := hm.le_skipBlanks.trans (Script.le_of_keyword? hword)
    refine .bind (.modify fun _ h => ?_) fun _ => .pure fun _ h => h
    exact h.move (hafter.trans (m.script.le_skipBlanks _)) h.le_size

/-- A token takes a byte where it stands. -/
theorem readsFrom_eatToken {token : Bytes} (hne : token ≠ []) :
    Reaches (ReadsFrom s start) (fun eaten => ReadsFrom s (if eaten then start + 1 else start))
      (eatToken token) := by
  refine .get fun m hm => .ite (fun htoken => ?_) fun _ => .pure fun _ h => h
  have hlength : 0 < token.length := List.length_pos_iff.mpr hne
  have hpos := hm.le_skipBlanks
  have hinside : m.script.skipBlanks m.cursor + token.length ≤ m.script.size :=
    Script.le_size_of_startsWith htoken (Script.skipBlanks_le_size (Nat.min_le_right _ _))
  have hsize : start + 1 ≤ m.script.size := by omega
  have hbehind : start + 1 ≤ m.script.skipBlanks (m.script.skipBlanks m.cursor + token.length) :=
    Nat.le_trans (by omega) (m.script.le_skipBlanks _)
  refine .bind (.modify fun _ h => ?_) fun _ => .pure fun _ h => h
  exact h.move hbehind (hm.script_eq ▸ hsize)

/-! ## The terms of a condition -/

private theorem readsFrom_readComparisonOf (tokens : List (Bytes × Comparison))
    (hne : ∀ entry ∈ tokens, entry.1 ≠ []) :
    Reaches (ReadsFrom s start) (fun _ => ReadsFrom s start) (readComparisonOf tokens) := by
  induction tokens with
  | nil => exact .pure fun _ h => h
  | cons entry tokens ih =>
    obtain ⟨hentry, hrest⟩ := List.forall_mem_cons.mp hne
    refine .bind (readsFrom_eatToken hentry) fun eaten => .ite (fun heaten => ?_) fun heaten => ?_
    · rw [heaten]
      exact .pure fun _ h => ⟨h.script_eq, Nat.le_of_succ_le h.ge⟩
    · rw [if_neg heaten]
      exact ih hrest

private theorem readsFrom_readComparison :
    Reaches (ReadsFrom s start) (fun _ => ReadsFrom s start) readComparison :=
  readsFrom_readComparisonOf _ (by decide)

/-- A term of a condition is not read backwards. -/
theorem readsFrom_conditionTerm :
    Reaches (ReadsFrom s start) (fun _ => ReadsFrom s start) conditionTerm := by
  refine .bind (readsFrom_eatKeyword _) fun files => .ite (fun _ => ?_) fun _ => ?_
  · exact .bind readsFrom_readStr fun name => .get fun m _ => .pure fun _ h => h
  refine .bind (readsFrom_eatKeyword _) fun labels => .ite (fun _ => ?_) fun _ => ?_
  · exact .bind readsFrom_readLabel fun label => .get fun m _ => .pure fun _ h => h
  refine .get fun m _ => .ite (fun _ => ?_) fun _ => ?_
  · refine .bind readsFrom_readStr fun lhs => .bind readsFrom_readComparison fun comparison => ?_
    cases comparison with
    | none => exact .throw _
    | some comparison => exact .bind readsFrom_readStr fun rhs => .pure fun _ h => h
  · refine .bind readsFrom_readInt fun lhs => .bind readsFrom_readComparison fun comparison => ?_
    cases comparison with
    | none => exact .pure fun _ h => h
    | some comparison => exact .bind readsFrom_readInt fun rhs => .pure fun _ h => h

/-- The sign in front of a further term takes a byte. -/
theorem readsFrom_eatJoint :
    Reaches (ReadsFrom s start) (fun joined => ReadsFrom s (if joined then start + 1 else start))
      eatJoint := by
  refine .bind (readsFrom_eatToken (by decide)) fun double => .ite (fun hdouble => ?_) fun hdouble => ?_
  · rw [hdouble]
    exact .pure fun _ h => h
  · rw [if_neg hdouble]
    exact readsFrom_eatToken (by decide)

/-- Any two bounds on the terms of a condition that exceed the number of bytes left lead to the
same. -/
theorem conditionTail_eq_of_size_lt {terms terms' : Nat} (result : Bool)
    (hterms : m.script.size < m.cursor + terms) (hterms' : m.script.size < m.cursor + terms') :
    conditionTail terms result m = conditionTail terms' result m := by
  induction terms generalizing terms' result m with
  | zero => exact absurd (exists_succ_of_size_lt hterms) nofun
  | succ terms ih =>
    obtain ⟨terms', rfl⟩ := exists_succ_of_size_lt hterms'
    rw [conditionTail_succ, conditionTail_succ]
    refine Action.bind_congr_of_ok fun joined m₁ hjoint => ?_
    cases joined with
    | false => rfl
    | true =>
      refine Action.bind_congr_of_ok fun term m₂ hterm => ?_
      have hafter : ReadsFrom m.script (m.cursor + 1) m₂ :=
        readsFrom_conditionTerm (readsFrom_eatJoint ⟨rfl, Nat.le_refl _⟩ hjoint) hterm
      exact ih _ (hafter.size_lt hterms) (hafter.size_lt hterms')

/-! ## The operands of a subroutine command -/

private theorem readsFrom_eatPointer :
    Reaches (ReadsFrom s start) (fun _ => ReadsFrom s start) eatPointer := by
  intro m pointer m' hm hrun
  rw [eatPointer_eq] at hrun
  obtain ⟨-, rfl⟩ := EStateM.Result.ok.inj hrun
  split
  · exact hm.move (Nat.le_succ_of_le hm.le_skipBlanks) hm.le_size
  · exact hm

/-- A target takes a byte, wherever its operand stands. -/
theorem readsFrom_copyParam :
    Reaches (ReadsFrom s start) (fun _ => ReadsFrom s (start + 1)) copyParam := by
  intro m _ m' hm hcopy
  obtain ⟨pointer, target, params, found, after, m₁, m₂, m₃, m₄, hpointer, htarget, -, -, hread, hwarn,
    rfl⟩ := copyParam_eq_ok hcopy
  have hbehind : ReadsFrom s (start + 1) m₂ :=
    readsFrom_readVarRef (readsFrom_eatPointer hm hpointer) htarget
  obtain ⟨hreads, hpc, -⟩ :=
    (portable_readParamIfAny pointer target).atAddress (Agrees.refl m₂) hread
  have hback : ReadsFrom s (start + 1) m₃ := by
    refine ⟨hreads.script.trans hbehind.script_eq, ?_⟩
    rw [cursor, hpc, hreads.script]
    exact hbehind.ge
  have hkeeps : Keeps (ReadsFrom s (start + 1)) (warn .missingParams) :=
    keeps_warn_of (fun _ _ _ h => ⟨h.script_eq, h.ge⟩) _
  have hwarned : ReadsFrom s (start + 1) m₄ := by
    cases found with
    | true =>
      cases hwarn
      exact hback
    | false => exact hkeeps.reaches hback hwarn
  exact ⟨hwarned.script_eq, hwarned.ge⟩

/-- Any two bounds on the targets that exceed the number of bytes left lead to the same. -/
theorem copyParams_eq_of_size_lt {targets targets' : Nat}
    (htargets : m.script.size < m.cursor + targets)
    (htargets' : m.script.size < m.cursor + targets') :
    copyParams targets m = copyParams targets' m := by
  induction targets generalizing targets' m with
  | zero => exact absurd (exists_succ_of_size_lt htargets) nofun
  | succ targets ih =>
    obtain ⟨targets', rfl⟩ := exists_succ_of_size_lt htargets'
    cases hmore : m.hasMore with
    | false =>
      rw [copyParams, copyParams, Action.get_bind, Action.get_bind, hmore]
      rfl
    | true =>
      rw [copyParams_succ targets hmore, copyParams_succ targets' hmore]
      refine Action.bind_congr_of_ok fun _ m₁ hcopy => ?_
      have hafter : ReadsFrom m.script (m.cursor + 1) m₁ :=
        readsFrom_copyParam ⟨rfl, Nat.le_refl _⟩ hcopy
      exact ih (hafter.size_lt htargets) (hafter.size_lt htargets')

/-! ## The fields of a tag -/

/-- Copies one field of a tag to the next target. -/
def copyField (field : Bytes) : Run Unit := do
  let target ← readVarRef
  if target.isStr then writeStr target field
  else writeInt target (Decimal.leadingInt field)

private theorem copyFields_succ (targets : Nat) (fields : List Bytes) (h : m.hasMore = true) :
    copyFields (targets + 1) fields m =
      (copyField (fields.headD []) >>= fun _ => copyFields targets fields.tail) m := by
  rw [copyFields, Action.get_bind, h, if_pos rfl, copyField, bind_assoc]
  refine congrArg (fun k => (readVarRef >>= k) m) (funext fun target => ?_)
  cases target.isStr <;> rfl

private theorem keeps_updateStore_readsFrom (f : Store → Except Fault Store) :
    Keeps (ReadsFrom s start) (updateStore f) :=
  .get fun _ _ => .ofExcept_bind fun _ _ => .modify fun _ h => ⟨h.script_eq, h.ge⟩

/-- A target takes a byte, whatever the field. -/
theorem readsFrom_copyField (field : Bytes) :
    Reaches (ReadsFrom s start) (fun _ => ReadsFrom s (start + 1)) (copyField field) :=
  .bind readsFrom_readVarRef fun _ =>
    .ite (fun _ => (keeps_updateStore_readsFrom _).reaches) fun _ =>
      (keeps_updateStore_readsFrom _).reaches

/-- Any two bounds on the targets that exceed the number of bytes left lead to the same. -/
theorem copyFields_eq_of_size_lt {targets targets' : Nat} (fields : List Bytes)
    (htargets : m.script.size < m.cursor + targets)
    (htargets' : m.script.size < m.cursor + targets') :
    copyFields targets fields m = copyFields targets' fields m := by
  induction targets generalizing targets' fields m with
  | zero => exact absurd (exists_succ_of_size_lt htargets) nofun
  | succ targets ih =>
    obtain ⟨targets', rfl⟩ := exists_succ_of_size_lt htargets'
    cases hmore : m.hasMore with
    | false =>
      rw [copyFields, copyFields, Action.get_bind, Action.get_bind, hmore]
      rfl
    | true =>
      rw [copyFields_succ targets fields hmore, copyFields_succ targets' fields hmore]
      refine Action.bind_congr_of_ok fun _ m₁ hcopy => ?_
      have hafter : ReadsFrom m.script (m.cursor + 1) m₁ :=
        readsFrom_copyField _ ⟨rfl, Nat.le_refl _⟩ hcopy
      exact ih _ (hafter.size_lt htargets) (hafter.size_lt htargets')

end NovelScript.Machine
