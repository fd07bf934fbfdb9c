import NovelScript.Listing
import NovelScript.Proofs.Script.LoopSearch
import NovelScript.Proofs.TextRun.Elements

/-!
# Reading always advances

Reading a run of text takes at least one byte, unless it stops at the end of the line; and it says
that it stops there only where the line ends. So a line of text is read to its end in at most as
many runs as it has bytes, every statement takes at least one byte, and reading statement after
statement comes to the end of the script or to text that cannot be read.
-/

namespace NovelScript

namespace TextReader

/-- How a pause is come to from an address: behind at least one byte, unless it is the end of the
line, which is where the line ends. -/
structure Advances (script : Script) (addr : Nat) (stop : Pause) (next : Nat) : Prop where
  /-- Reading never goes back. -/
  le : addr ≤ next
  /-- Reading stays inside the script. -/
  le_size : next ≤ script.size
  /-- Something is read in front of a pause inside the line. -/
  lt : stop ≠ .endOfLine → addr < next
  /-- The line ends where reading says so. -/
  atLineEnd : stop = .endOfLine → script.AtLineEnd next

variable {setup : Setup} {p q : Progress} {stop : Pause}

/-- Every element takes a byte, so the bound on the number of elements is never what ends a run. -/
theorem elements_advance {count : Nat} (hcount : setup.script.size < p.pos + count)
    (h : setup.elements count p = .ok stop q) :
    p.pos ≤ q.pos ∧ (stop ≠ .endOfLine → p.pos < q.pos) ∧
      (stop = .endOfLine → setup.script.AtLineEnd q.pos) := by
  induction count generalizing p with
  | zero =>
    cases h
    refine ⟨le_rfl, fun hstop => absurd rfl hstop, fun _ b hb => ?_⟩
    exact absurd (Script.lt_size_of_byte? hb) (by omega)
  | succ count ih =>
    obtain ⟨found, middle, hrun, hrest⟩ := Action.exists_of_run_eq_ok h
    rcases Setup.element_takes hrun with ⟨hstop, hlt⟩ | ⟨rfl, rfl, hend⟩
    · cases found with
      | some pause =>
        cases hrest
        exact ⟨hlt.le, fun _ => hlt, fun h => absurd (congrArg some h) hstop⟩
      | none =>
        obtain ⟨hle, -, hlast⟩ := ih (by omega) hrest
        exact ⟨by omega, fun _ => by omega, hlast⟩
    · cases hrest
      exact ⟨le_rfl, fun h => absurd rfl h, fun _ => hend⟩

/-- A warning at the end of a run does not move the position. -/
theorem run_advances (h : setup.run p = .ok stop q) :
    p.pos ≤ q.pos ∧ (stop ≠ .endOfLine → p.pos < q.pos) ∧
      (stop = .endOfLine → setup.script.AtLineEnd q.pos) := by
  rw [Setup.run, Action.get_bind] at h
  obtain ⟨found, last, hrun, hrest⟩ := Action.exists_of_run_eq_ok h
  have hadvance := elements_advance (by omega) hrun
  rw [Action.get_bind] at hrest
  have hlast : stop = found ∧ q.pos = last.pos := by
    split at hrest <;> cases hrest <;> exact ⟨rfl, rfl⟩
  rw [hlast.1, hlast.2]
  exact hadvance

private theorem read_advances {store : Store} {addr : Nat} {narrow : Bool} {delivery : Delivery}
    (haddr : addr ≤ setup.script.size)
    (h : (read setup store addr narrow).1 = .ok delivery) :
    Advances setup.script addr delivery.run.stop delivery.next := by
  have hsize := next_read_le_size h
  rw [read] at h
  split at h
  · next stop q hrun =>
    cases h
    obtain ⟨hle, hlt, hend⟩ := run_advances hrun
    rw [Nat.min_eq_left haddr] at hle hlt
    exact ⟨hle, hsize, hlt, hend⟩
  · cases h

end TextReader

namespace Listing

variable {setup : TextReader.Setup} {tags : Bool} {addr : Nat} {p : Progress}

/-- The last thing found is text that cannot be read, and reading has ended there. -/
def Failed (p : Progress) : Prop :=
  p.next = none ∧ ∃ fault, p.items.back? = some (.fault fault)

/-- The last thing found is a run up to the end of its line, and reading goes on from there. -/
def AtEndOfLine (p : Progress) : Prop :=
  ∃ delivery, p.items.back? = some (.run delivery) ∧ delivery.run.stop = .endOfLine ∧
    p.next = some delivery.next

/-- A line of text is read run by run up to its end, unless it cannot be read. Every run in front of
the last one takes a byte, so the bound on the number of runs is never what ends the line. -/
theorem readLine_advances {runs : Nat} (hruns : setup.script.size < addr + runs)
    (haddr : addr ≤ setup.script.size) :
    Failed (readLine setup runs addr p) ∨ AtEndOfLine (readLine setup runs addr p) ∧
      ∀ next ∈ (readLine setup runs addr p).next,
        addr ≤ next ∧ next ≤ setup.script.size ∧ setup.script.AtLineEnd next := by
  induction runs generalizing addr p with
  | zero => omega
  | succ runs ih =>
    rw [readLine]
    split
    · next fault store hread => exact .inl ⟨rfl, fault, Array.back?_push ..⟩
    · next delivery store hread =>
      have hadvance := TextReader.read_advances haddr (congrArg Prod.fst hread)
      dsimp only
      split
      · next hstop =>
        refine .inr ⟨⟨delivery, Array.back?_push .., hstop, rfl⟩, ?_⟩
        rintro next ⟨⟩
        exact ⟨hadvance.le, hadvance.le_size, hadvance.atLineEnd hstop⟩
      · next hstop =>
        have hlt := hadvance.lt hstop
        refine (ih (by omega) hadvance.le_size).imp_right (And.imp_right fun hrest => ?_)
        intro next hnext
        obtain ⟨hle, hsize, hline⟩ := hrest next hnext
        exact ⟨by omega, hsize, hline⟩

/-- Reading the statement at an address goes on at another one, behind at least one byte; a line of
text is read to its end. -/
structure GoesOn (setup : TextReader.Setup) (tags : Bool) (addr there : Nat) (p : Progress) :
    Prop where
  /-- There reading goes on. -/
  next : p.next = some there
  /-- It is further on. -/
  lt : addr < there
  /-- It is inside the script. -/
  le_size : there ≤ setup.script.size
  /-- Behind text it is where the line ends. -/
  line : (setup.script.statementAt addr tags).kind = .text →
    AtEndOfLine p ∧ setup.script.AtLineEnd there

/-- Reading ends with the statement at an address: there is none, or it is text that cannot be
read. -/
def EndsAt (setup : TextReader.Setup) (tags : Bool) (addr : Nat) (p : Progress) : Prop :=
  p.next = none ∧
    ((setup.script.statementAt addr tags).kind = .endOfScript ∨
      (setup.script.statementAt addr tags).kind = .text ∧ Failed p)

/-- A line of text does not begin where it ends. -/
theorem text_begins {script : Script} (h : (script.statementAt addr tags).kind = .text) :
    (script.statementAt addr tags).next = (script.statementAt addr tags).start ∧
      addr ≤ (script.statementAt addr tags).start ∧
      ¬ script.AtLineEnd (script.statementAt addr tags).start := by
  have hstart : min addr script.size ≤ script.skipSeparators (min addr script.size) :=
    script.le_advanceWhile _ _
  revert h
  rw [Script.statementAt]
  generalize script.skipSeparators (min addr script.size) = start at hstart
  split
  · rintro ⟨⟩
  · next b hb =>
    have hlt := Script.lt_size_of_byte? hb
    split_ifs with hnewline <;> intro h <;> simp [Script.kind_tagAt, Script.commandAt] at h
    refine ⟨rfl, ?_, fun hend => hnewline (beq_iff_eq.mpr (hend b hb))⟩
    dsimp only
    omega

/-- Statements that are neither text nor commands are passed over as a whole. -/
theorem goesOn_next {statement : Statement} (h : setup.script.statementAt addr tags = statement)
    (hend : statement.kind ≠ .endOfScript) (htext : statement.kind ≠ .text)
    (hcommand : ∀ word, statement.kind ≠ .command word) (hnext : p.next = some statement.next) :
    GoesOn setup tags addr statement.next p := by
  have hlt := Script.lt_passOver (h ▸ hend)
  have hpass : setup.script.passOver statement = statement.next := by
    rw [Script.passOver]
    split
    · next word hkind => exact absurd hkind (hcommand word)
    · next hkind => exact absurd hkind htext
    · rfl
  rw [h, hpass] at hlt
  exact ⟨hnext, hlt, h ▸ (setup.script.statementAt_le_size addr tags).2, fun hkind =>
    absurd (h ▸ hkind) htext⟩

/-- Every statement takes at least one byte, unless reading ends with it. -/
theorem readStatement_advances (setup : TextReader.Setup) (tags : Bool) (addr : Nat)
    (p : Progress) : EndsAt setup tags addr (readStatement setup tags addr p) ∨
      ∃ next, GoesOn setup tags addr next (readStatement setup tags addr p) := by
  have hinside := setup.script.statementAt_le_size addr tags
  rw [readStatement]
  split
  · next hkind => exact .inl ⟨rfl, .inl hkind⟩
  · next word hkind =>
    have hlt := Script.lt_passOver (hkind.trans_ne StatementKind.noConfusion)
    rw [Script.passOver, hkind] at hlt
    refine .inr ⟨_, rfl, hlt, Script.skipStatement_le_size false hinside.2, fun htext => ?_⟩
    rw [hkind] at htext
    cases htext
  · next hkind =>
    obtain ⟨hnext, haddr, hopen⟩ := text_begins hkind
    have hruns : setup.script.size < (setup.script.statementAt addr tags).next +
        (setup.script.size - (setup.script.statementAt addr tags).next + 1) := by omega
    rcases readLine_advances hruns hinside.2 with hfailed | ⟨hend, hrest⟩
    · exact .inl ⟨hfailed.1, .inr ⟨hkind, hfailed⟩⟩
    · obtain ⟨delivery, -, -, hgoes⟩ := id hend
      obtain ⟨hle, hsize, hline⟩ := hrest _ hgoes
      rw [hnext] at hle
      have hne : delivery.next ≠ (setup.script.statementAt addr tags).start :=
        fun heq => hopen (heq ▸ hline)
      exact .inr ⟨_, hgoes, by omega, hsize, fun _ => ⟨hend, hline⟩⟩
  · next hend hcommand htext => exact .inr ⟨_, goesOn_next rfl hend htext hcommand rfl⟩

/-- Statement after statement is read further on, up to one with which reading ends. Every
statement in front of that one takes a byte, so there are at most as many as bytes are left. -/
theorem read_advances {addr : Nat} {p : Progress} (hnext : p.next = some addr)
    (haddr : addr ≤ setup.script.size) :
    ∃ count ≤ setup.script.size - addr,
      (∀ n < count, ∃ here there, (read setup tags n p).next = some here ∧
        GoesOn setup tags here there (read setup tags (n + 1) p)) ∧
      ∃ last, (read setup tags count p).next = some last ∧
        EndsAt setup tags last (read setup tags (count + 1) p) := by
  have hsucc : ∀ n, read setup tags (n + 1) p =
      read setup tags n (readStatement setup tags addr p) := fun n => by rw [read, hnext]
  have hfirst : read setup tags 1 p = readStatement setup tags addr p := hsucc 0
  rcases readStatement_advances setup tags addr p with hends | ⟨next, hgoes⟩
  · exact ⟨0, Nat.zero_le _, fun n hn => absurd hn n.not_lt_zero, addr, hnext, hfirst ▸ hends⟩
  · have hlt := hgoes.lt
    have hle := hgoes.le_size
    obtain ⟨count, hcount, hsteps, last, hlast, hends⟩ := read_advances hgoes.next hle
    refine ⟨count + 1, by omega, fun n hn => ?_, last, hsucc count ▸ hlast, ?_⟩
    · cases n with
      | zero => exact ⟨addr, next, hnext, hfirst ▸ hgoes⟩
      | succ n =>
        rw [hsucc, hsucc]
        exact hsteps n (by omega)
    · rw [hsucc]
      exact hends
termination_by setup.script.size - addr

/-- **Reading always advances.** A run of text that can be read ends inside the script, behind at
least one byte unless it stops at the end of the line, which is where the line ends. Reading
statement after statement goes further on with each of them, a line of text being read to its end,
and comes to the end of the script or to text that cannot be read after at most as many statements
as bytes are left. -/
theorem reading_advances (setup : TextReader.Setup) :
    (∀ store addr narrow delivery, addr ≤ setup.script.size →
      (TextReader.read setup store addr narrow).1 = .ok delivery →
      TextReader.Advances setup.script addr delivery.run.stop delivery.next) ∧
    ∀ tags addr p, p.next = some addr → addr ≤ setup.script.size →
      ∃ count ≤ setup.script.size - addr,
        (∀ n < count, ∃ here there, (read setup tags n p).next = some here ∧
          GoesOn setup tags here there (read setup tags (n + 1) p)) ∧
        ∃ last, (read setup tags count p).next = some last ∧
          EndsAt setup tags last (read setup tags (count + 1) p) :=
  ⟨fun _ _ _ _ haddr h => TextReader.read_advances haddr h,
    fun _ _ _ hnext haddr => read_advances hnext haddr⟩

/-- A label, a jump, a line of text with a pause in it, and a block without an equals sign. -/
def pausingScript : TextReader.Setup where
  script := ⟨(Bytes.ofText "*a\ngoto *b\n>one@two\n\x7b%0 4\x7d\n").toArray, .utf8⟩
  aliases := {}
  style := { clickMarkers := [], wideDigits := false, numberPad := 0 }

/-- The first run of the line of text ends behind the at sign, and the whole script is read in at
most as many statements as it has bytes. -/
theorem reading_advances_pausingScript :
    TextReader.Advances pausingScript.script 11 .clickWait 16 ∧
      ∃ count ≤ 27,
        (∀ n < count, ∃ here there,
          (read pausingScript true n ⟨#[], .blank 4 0, false, some 0⟩).next = some here ∧
          GoesOn pausingScript true here there
            (read pausingScript true (n + 1) ⟨#[], .blank 4 0, false, some 0⟩)) ∧
        ∃ last, (read pausingScript true count ⟨#[], .blank 4 0, false, some 0⟩).next = some last ∧
          EndsAt pausingScript true last
            (read pausingScript true (count + 1) ⟨#[], .blank 4 0, false, some 0⟩) := by
  let delivery : TextReader.Delivery :=
    { run := { pieces := [.chars (Bytes.ofText ">one")], stop := .clickWait, start := 11 },
      next := 16, narrow := false, warnings := [] }
  have hread : (TextReader.read pausingScript (.blank 4 0) 11 false).1 = .ok delivery := by
    decide +kernel
  have hsize : pausingScript.script.size = 27 := by decide +kernel
  obtain ⟨hruns, hstatements⟩ := reading_advances pausingScript
  refine ⟨hruns _ _ _ delivery (by rw [hsize]; decide) hread, ?_⟩
  have hcomes := hstatements true 0 ⟨#[], .blank 4 0, false, some 0⟩ rfl (Nat.zero_le _)
  rwa [hsize] at hcomes

end Listing

end NovelScript
