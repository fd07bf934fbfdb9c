import NovelScript.Proofs.Script.Walks
import NovelScript.Proofs.TextRun

/-!
# Readers stay on their line

The readers of comments, statements, string literals, tags and text stop in front of a newline, and
labels and positions are found by counting newlines. Both see the same lines only as long as no
reader takes a newline for a part of a character. Every reader comes to addresses of the walk over
whole characters, so that all of them stay on a line exactly if the walk does. A lead byte in front
of a newline takes the newline with it, in either encoding.
-/

namespace NovelScript

open NovelScript.Action (after)

namespace Script

/-- No reader that is started at the address in the given mode leaves its position beyond the end of
the line, whether it succeeds or fails. -/
structure ReadersStay (s : Script) (narrow : Bool) (addr : Nat) : Prop where
  /-- Comments and labels. -/
  toLineEnd : s.skipToLineEnd narrow addr ≤ s.lineEnd addr
  /-- Statements. -/
  statement : s.skipStatement narrow addr ≤ s.lineEnd addr
  /-- String literals, behind the opening delimiter. -/
  literal : ∀ scope : Operand.Scope, scope.script = s → scope.narrow = narrow →
    ∀ delimiter ∈ [Byte.quote, Byte.backquote],
      (after (scope.literal delimiter) { pos := addr }).pos ≤ s.lineEnd addr
  /-- Tags, which are read in steps of whole characters in either mode. -/
  tag : s.isAt addr Byte.leftBracket = true → (s.tagAt addr).next ≤ s.lineEnd addr
  /-- Runs of text. -/
  text : ∀ setup : TextReader.Setup, setup.script = s → ∀ store,
    (after setup.run { pos := addr, narrow, store }).pos ≤ s.lineEnd addr

variable {s : Script} {addr : Nat}

/-- The literal scan comes to addresses of the walk. -/
theorem walks_literal {scope : Operand.Scope} (haddr : addr ≤ scope.script.size) {delimiter : UInt8}
    (hdelimiter : Byte.Inline delimiter) :
    scope.script.Walks scope.narrow addr
      (after (scope.literal delimiter) { pos := addr }).pos := by
  have hadmits : scope.Admits (scope.script.Walks scope.narrow addr) fun _ => True := {
    scans := lineScans_walks haddr scope.narrow
    slice := fun _ _ => trivial
    str := fun _ => trivial
    aliases := fun _ => trivial
    append := fun _ _ => trivial }
  exact (hadmits.gives_literal hdelimiter).keeps (s := { pos := addr }) .start

/-- Reading text comes to addresses of the walk of the mode that it is in. -/
theorem walks_text {setup : TextReader.Setup} (haddr : addr ≤ setup.script.size)
    (hwhole : setup.script.Whole false addr) (narrow : Bool) (store : Store) :
    ∃ mode, setup.script.Walks mode addr (after setup.run { pos := addr, narrow, store }).pos := by
  have hcarries : setup.Carries (fun mode => setup.script.Walks mode addr) (fun _ => True)
      (Store.Edits Store.Edit.Scripted store) := {
    admits := fun mode => TextReader.Setup.admits_edits (lineScans_walks haddr mode) store
    backquote := fun hb hpos => hpos.meet haddr hwhole hb (by decide) _ }
  have hstart : TextReader.Setup.Proceeds (fun mode => setup.script.Walks mode addr)
      (fun _ => True) (Store.Edits Store.Edit.Scripted store) { pos := addr, narrow, store } :=
    ⟨rfl, .start, trivial, .refl⟩
  exact ⟨_, (hcarries.keeps_run hstart).pos⟩

private theorem Whole.readersStay (haddr : addr ≤ s.size) (h : s.Whole false addr) (narrow : Bool) :
    s.ReadersStay narrow addr := by
  have hmode := h.of_wide haddr
  have hscans := lineScans_walks haddr narrow
  constructor
  · exact hmode narrow _ (hscans.advanceChars rfl .start)
  · exact hmode narrow _ (hscans.skipStatement .start)
  · rintro scope rfl rfl delimiter hdelimiter
    have hinline := Byte.inline_of_all (by decide) delimiter hdelimiter
    exact hmode _ _ (walks_literal haddr hinline)
  · intro hat
    exact h _ ((lineScans_walks haddr false).tagAt .start (beq_iff_eq.mp hat)).2
  · rintro setup rfl store
    obtain ⟨mode, hwalk⟩ := walks_text haddr h narrow store
    exact hmode mode _ hwalk

/-- **All readers stay on the line exactly if no character of the walk reaches over its end, and
that is so wherever the rest of the line is well formed.** -/
theorem readersStay_iff_whole (s : Script) {addr : Nat} (haddr : addr ≤ s.size) :
    ((∀ narrow, s.ReadersStay narrow addr) ↔ s.Whole false addr) ∧
      (s.encoding.WellFormed (s.slice addr (s.lineEnd addr)) → s.Whole false addr) := by
  refine ⟨⟨fun h => ?_, fun h => h.readersStay haddr⟩, fun h => whole_of_wellFormed haddr h false⟩
  exact (skipToLineEnd_le_lineEnd_iff haddr).mp (h false).toLineEnd

/-- A tag with a full-width letter whose second byte is a backquote, and the same letter behind
it. -/
def wideLetters : Script :=
  { bytes := #[0x5b, 0x82, 0x60, 0x5d, 0x82, 0x60, 0x0a, 0x41], encoding := .shiftJis }

/-- The full-width letter is read as one character, so that every reader stays on the line. -/
theorem readersStay_wideLetters :
    0 ≤ wideLetters.size ∧ ∀ narrow, wideLetters.ReadersStay narrow 0 := by
  have hsize : 0 ≤ wideLetters.size := by decide
  obtain ⟨hiff, hwhole⟩ := readersStay_iff_whole wideLetters hsize
  refine ⟨hsize, hiff.mpr (hwhole ?_)⟩
  show Text.ShiftJis.wellFormedAfter false _ = true
  decide +kernel

/-- A lead byte of both encodings in front of a newline. -/
def brokenLine (encoding : Encoding) : Script :=
  { bytes := #[0x5b, 0xe3, 0x0a, 0x41], encoding }

/-- Every reader takes the newline at address 2 for a part of a character. -/
theorem readers_pass_brokenLine :
    (brokenLine .shiftJis).lineEnd 0 = 2 ∧ (brokenLine .shiftJis).lineEnd 1 = 2 ∧
      (brokenLine .shiftJis).skipToLineEnd false 0 = 4 ∧
      (brokenLine .shiftJis).skipStatement false 0 = 4 ∧
      ((brokenLine .shiftJis).tagAt 0).next = 4 ∧
      (after (Operand.Scope.literal
        { script := brokenLine .shiftJis, narrow := false, store := .blank 0 0, aliases := {} }
        Byte.quote) { pos := 1 }).pos = 4 ∧
      (after (TextReader.Setup.run
        { script := brokenLine .shiftJis, aliases := {},
          style := { clickMarkers := [], wideDigits := false, numberPad := 0 } })
        { pos := 0, narrow := false, store := .blank 0 0 }).pos = 4 ∧
      (brokenLine .utf8).lineEnd 0 = 2 ∧ (brokenLine .utf8).skipToLineEnd false 0 = 4 := by
  decide +kernel

end Script

end NovelScript
