import NovelScript.Proofs.Machine.Reachable

/-!
# A machine never leaves its script

Whatever happens to a machine, all the addresses that it holds are addresses of its script: the next
byte, the current statement, the last section marker, and the addresses in its frames. A cursor that
starts at one of them goes forward and does not pass the end. So all that is cut out of the script,
by a cursor, for a saved position or for the place of a failure, is there.
-/

namespace NovelScript

namespace Script

variable {s : Script} {pos next : Nat}

/-- The addresses are in order, and the bytes between them are all there. -/
def InRange (s : Script) (start stop : Nat) : Prop :=
  start ≤ stop ∧ stop ≤ s.size

/-- One move of a cursor: so many bytes but not beyond the end, or bytes that it has looked at, or
an operand, whether it could be read or not. -/
inductive Move (s : Script) (pos : Nat) : Nat → Prop where
  /-- So many bytes. -/
  | advance (n : Nat) : Move s pos (s.advance pos n)
  /-- One character. -/
  | char (narrow : Bool) : Move s pos (pos + s.charWidth narrow pos)
  /-- Blanks. -/
  | blanks : Move s pos (s.skipBlanks pos)
  /-- A byte, if it is next. -/
  | byte (b : UInt8) : Move s pos (s.eat b pos)
  /-- Punctuation that is next. -/
  | token {token : Bytes} (h : s.startsWith token pos = true) : Move s pos (pos + token.length)
  /-- A keyword that is next. -/
  | keyword {word : String} {after : Nat} (h : s.keyword? word pos = some after) : Move s pos after
  /-- A name that is next. -/
  | name {name : String} {after : Nat} (h : s.name? pos = some (name, after)) : Move s pos after
  /-- The rest of the line. -/
  | line (narrow : Bool) : Move s pos (s.skipToLineEnd narrow pos)
  /-- The rest of the statement. -/
  | statement (narrow : Bool) : Move s pos (s.skipStatement narrow pos)
  /-- An integer expression. -/
  | int {scope : Operand.Scope} (h : scope.script = s) :
    Move s pos (Action.after scope.int { pos }).pos
  /-- A string expression. -/
  | str {scope : Operand.Scope} (h : scope.script = s) :
    Move s pos (Action.after scope.str { pos }).pos
  /-- A variable reference. -/
  | varRef {scope : Operand.Scope} (h : scope.script = s) :
    Move s pos (Action.after scope.varRef { pos }).pos
  /-- A label. -/
  | label {scope : Operand.Scope} (h : scope.script = s) :
    Move s pos (Action.after scope.label { pos }).pos

/-- A reader that stays inside the script makes a move in range. -/
theorem inRange_after {α : Type} {read : Operand.Reader α} (hpos : pos ≤ s.size)
    (h : Action.Keeps (Operand.Inside s pos) read) :
    s.InRange pos (Action.after read { pos }).pos := by
  have hstart : Operand.Inside s pos { pos } := ⟨Nat.le_refl pos, hpos⟩
  exact ⟨(h hstart).ge, (h hstart).le⟩

/-- A move goes forward and not beyond the end. -/
theorem Move.inRange (h : s.Move pos next) (hpos : pos ≤ s.size) : s.InRange pos next := by
  cases h with
  | advance n =>
    simp only [InRange, Script.advance]
    omega
  | char narrow => exact ⟨Nat.le_add_right _ _, s.add_charWidth_le_size narrow hpos⟩
  | blanks => exact ⟨s.le_skipBlanks pos, skipBlanks_le_size hpos⟩
  | byte b => exact ⟨s.le_eat b pos, eat_le_size b hpos⟩
  | token h => exact ⟨Nat.le_add_right _ _, le_size_of_startsWith h hpos⟩
  | keyword h => exact ⟨le_of_keyword? h, le_size_of_keyword? h hpos⟩
  | name h => exact ⟨le_of_name? h, le_size_of_name? h⟩
  | line narrow => exact ⟨s.le_advanceChars _ _ pos, s.advanceChars_le_size _ _ hpos⟩
  | statement narrow =>
    exact ⟨s.le_skipStatementFrom narrow false pos, skipStatement_le_size narrow hpos⟩
  | int h =>
    subst h
    exact inRange_after hpos (Operand.Scope.keeps_int _)
  | str h =>
    subst h
    exact inRange_after hpos (Operand.Scope.keeps_str _)
  | varRef h =>
    subst h
    exact inRange_after hpos (Operand.Scope.keeps_varRef _)
  | label h =>
    subst h
    exact inRange_after hpos (Operand.Scope.keeps_label _)

/-- So do any number of moves. -/
theorem inRange_of_moves (h : Relation.ReflTransGen s.Move pos next) (hpos : pos ≤ s.size) :
    s.InRange pos next := by
  induction h with
  | refl => exact ⟨Nat.le_refl pos, hpos⟩
  | tail _ hmove ih =>
    obtain ⟨hle, hsize⟩ := ih
    obtain ⟨hle', hsize'⟩ := hmove.inRange hsize
    exact ⟨hle.trans hle', hsize'⟩

end Script

/-! ## Addresses of a machine -/

namespace Machine

variable {m : Machine} {script : Script}

/-- All addresses that a machine holds. -/
def addresses (m : Machine) : List Nat :=
  m.pc :: m.statementStart ::
    (m.lastSection.toList ++ m.nesting.frames.flatMap Frame.addresses)

/-- Where the lines of a saved position are counted from. -/
def positionBase (m : Machine) (addr : Nat) : Nat :=
  ((m.labels.enclosing? addr).map Label.start).getD 0

/-- Where the lines of the current statement are counted from. -/
def statementBase (m : Machine) : Nat :=
  ((m.labels.byAddress? m.statementStart).map Label.start).getD 0

/-- Every address that a machine holds is an address of the script, and all that is cut out of the
script is there. -/
structure StaysIn (s : Script) (m : Machine) : Prop where
  /-- The machine still runs the script. -/
  script : m.script = s
  /-- It holds addresses of the script. -/
  addresses : ∀ addr ∈ m.addresses, addr ≤ s.size
  /-- A cursor that starts at one of them can cut out all that it passes over. -/
  cursor : ∀ addr ∈ m.addresses, ∀ start stop, Relation.ReflTransGen s.Move addr start →
    Relation.ReflTransGen s.Move start stop → s.InRange start stop
  /-- The lines of a saved position are counted in range, and its line is not after it. -/
  position : ∀ addr,
    (m.positionOf addr).line =
        Int32.ofNat (s.newlinesBetween (m.positionBase addr) (s.lineStart addr)) ∧
      s.InRange (m.positionBase addr) (s.lineStart addr) ∧ s.lineStart addr ≤ addr
  /-- So are the lines of the current statement. -/
  line : m.location.line =
      s.newlinesBetween m.statementBase (min (max m.statementStart m.statementBase) s.size) ∧
    s.InRange m.statementBase (min (max m.statementStart m.statementBase) s.size)
  /-- The beginning of the current statement is cut out in range. -/
  statement : s.InRange m.statementStart (min (s.lineEnd m.statementStart) (m.statementStart + 40))

private theorem addresses_le (h : m.core.Inside script) :
    ∀ addr ∈ m.addresses, addr ≤ script.size := by
  intro addr haddr
  simp only [addresses, List.mem_cons, List.mem_append, Option.mem_toList,
    List.mem_flatMap] at haddr
  rcases haddr with rfl | rfl | hsection | ⟨frame, hframe, haddr⟩
  · exact h.pc
  · exact h.statementStart
  · exact h.lastSection addr hsection
  · exact Frame.within_iff.mp (h.nesting frame hframe) addr haddr

/-- The lines of a saved position are counted down from a line start that is not below them. -/
theorem inRange_position (h : m.core.Inside script) (addr : Nat) :
    script.InRange (m.positionBase addr) (script.lineStart addr) := by
  refine ⟨?_, script.lineStart_le_size addr⟩
  rw [positionBase]
  cases hlabel : m.labels.enclosing? addr with
  | none => exact Nat.zero_le _
  | some label =>
    obtain ⟨hmem, hle⟩ := LabelTable.mem_of_enclosing? hlabel
    rw [show m.labels = _ from h.labels] at hmem
    have hstart := (LabelTable.stands_of_mem_build hmem).start
    have hsize := hstart.le_size
    -- An address beyond the end has the line of the end.
    have hline := hstart.le_lineStart (show label.start ≤ min addr script.size by omega)
      (Nat.min_le_right _ _)
    simpa [Script.lineStart] using hline

private theorem statementBase_le (h : m.core.Inside script) : m.statementBase ≤ script.size := by
  rw [statementBase]
  cases hlabel : m.labels.byAddress? m.statementStart with
  | none => exact Nat.zero_le _
  | some label =>
    have hmem := LabelTable.mem_of_byAddress? hlabel
    rw [show m.labels = _ from h.labels] at hmem
    exact (LabelTable.stands_of_mem_build hmem).start.le_size

private theorem staysIn_of_inside (h : m.core.Inside script) : m.StaysIn script where
  script := h.script
  addresses := addresses_le h
  cursor addr haddr start stop hstart hstop := by
    have hsize := (Script.inRange_of_moves hstart (addresses_le h addr haddr)).2
    exact Script.inRange_of_moves hstop hsize
  position addr := by
    obtain rfl := h.script
    exact ⟨rfl, inRange_position h addr, Script.lineStart_le _ addr⟩
  line := by
    have hbase := statementBase_le h
    obtain rfl := h.script
    refine ⟨rfl, ?_, Nat.min_le_right _ _⟩
    omega
  statement := by
    have hstart : m.statementStart ≤ script.size := h.statementStart
    have hend := Script.le_lineEnd hstart
    have hsize := script.lineEnd_le_size m.statementStart
    constructor <;> omega

/-! ## What can happen to a machine -/

/-- What can happen to a machine. -/
inductive Happening where
  /-- The host makes a call. -/
  | call (call : HostCall)
  /-- Somebody else changes the files of saves. -/
  | saves (saves : SaveArea)

/-- The machine after something has happened to it; a call may have failed. -/
def undergo (m : Machine) : Happening → Machine
  | .call call => (m.serve call).2
  | .saves saves => { m with saves }

/-- The machine after several things have happened to it, one after another. -/
def undergoAll (m : Machine) (happenings : List Happening) : Machine :=
  happenings.foldl undergo m

private theorem inside_undergo (h : m.core.Inside script) (happening : Happening) :
    (m.undergo happening).core.Inside script := by
  cases happening with
  | call call => exact (evolves_serve h call).inside
  | saves saves => exact h

private theorem inside_undergoAll (h : m.core.Inside script) (happenings : List Happening) :
    (m.undergoAll happenings).core.Inside script := by
  induction happenings generalizing m with
  | nil => exact h
  | cons happening happenings ih => exact ih (inside_undergo h happening)

/-- **A machine never leaves its script.** Load any script with any settings and any files, make any
calls, whether they succeed or fail, and let the files of saves become anything in between: all
addresses that the machine holds are addresses of the script, and all that is cut out of the script
is there. -/
theorem addresses_stay_in_script {settings : Settings} {saves : SaveArea} {entropy : RandomSource}
    {library : Library} (hload : Machine.load script settings saves entropy library = .ok m)
    (happenings : List Happening) :
    (m.undergoAll happenings).StaysIn script :=
  staysIn_of_inside (inside_undergoAll (inside_load hload) happenings)

/-- A script that calls a label out of a loop. -/
def callInLoop : Script where
  bytes := (Bytes.ofText "for %1=1 to 3\ngosub *a\nnext\n*a\nadd %2,1\nreturn").toArray
  encoding := .shiftJis

/-- The script is run into the call, a save that is no save is put in place and loaded, a position
that is not there is restored, and an operand is read where there is none. -/
def mishaps : List Happening :=
  List.replicate 4 (.call .step) ++
    [.saves (.folder { files := [("save1.dat", [0x4e, 0x53])] }), .call (.loadSlot 1),
      .call (.restore { (fresh callInLoop {} .absent).snapshot 0 none with
        position := { label := "a", line := 900, offset := 900 } }),
      .call (.startAt "b"), .call .readStr, .call (.finish .advance)]

/-- In the call and in the loop, after all this, the machine holds four addresses of the script, and
none outside. -/
theorem addresses_stay_in_script_afterMishaps :
    Machine.load callInLoop {} .absent = .ok (fresh callInLoop {} .absent) ∧
      ((fresh callInLoop {} .absent).undergoAll mishaps).addresses = [30, 28, 22, 13] ∧
      ((fresh callInLoop {} .absent).undergoAll mishaps).StaysIn callInLoop := by
  have hload : Machine.load callInLoop {} .absent = .ok (fresh callInLoop {} .absent) := rfl
  exact ⟨hload, by decide +kernel, addresses_stay_in_script hload mishaps⟩

end Machine

end NovelScript
