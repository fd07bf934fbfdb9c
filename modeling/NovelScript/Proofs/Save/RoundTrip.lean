import NovelScript.Proofs.Save.Decoding
import NovelScript.Proofs.Text.Utf8

/-!
# Saves survive their file format

A save is storable when the format has room for it: numbers below 2³¹ where a count or an index is
written, no zero byte in a string, no empty string where an empty one stands for none, and arrays
with as many cells as their axes ask for. Writing a storable save and reading the file gives the
save back, and a file that can be read at all, whatever its bytes, gives a storable save.
-/

namespace NovelScript

/-! ## What the format has room for -/

/-- The label can be written as a string. -/
def SavedPosition.Storable (position : SavedPosition) : Prop :=
  0 ∉ Bytes.ofText position.label

instance (position : SavedPosition) : Decidable position.Storable :=
  inferInstanceAs (Decidable (0 ∉ _))

/-- The position of the bookmark can be written. -/
def SavedBookmark.Storable (bookmark : SavedBookmark) : Prop :=
  bookmark.position.Storable

instance (bookmark : SavedBookmark) : Decidable bookmark.Storable :=
  inferInstanceAs (Decidable bookmark.position.Storable)

/-- Numbers and lengths fit in 31 bits. -/
def VariableRef.Storable : VariableRef → Prop
  | .int n => n < 2 ^ 31
  | .str n => n < 2 ^ 31
  | .array _ indices => indices.length < 2 ^ 31

instance (ref : VariableRef) : Decidable ref.Storable :=
  match ref with
  | .int n => inferInstanceAs (Decidable (n < 2 ^ 31))
  | .str n => inferInstanceAs (Decidable (n < 2 ^ 31))
  | .array _ indices => inferInstanceAs (Decidable (indices.length < 2 ^ 31))

/-- All parts of the frame can be written; the number of a call's kind is free. -/
def SavedFrame.Storable : SavedFrame → Prop
  | .call _ returnTo params bookmark =>
    returnTo.Storable ∧ (∀ position ∈ params, position.Storable) ∧ ∀ mark ∈ bookmark, mark.Storable
  | .loop counter _ _ body _ => counter.Storable ∧ body.Storable

instance (frame : SavedFrame) : Decidable frame.Storable :=
  match frame with
  | .call _ returnTo params bookmark => inferInstanceAs (Decidable
      (returnTo.Storable ∧ (∀ position ∈ params, position.Storable) ∧
        ∀ mark ∈ bookmark, mark.Storable))
  | .loop counter _ _ body _ => inferInstanceAs (Decidable (counter.Storable ∧ body.Storable))

/-- The string is absent, or it has bytes and no zero among them. -/
def SavedSlot.Storable (slot : SavedSlot) : Prop :=
  ∀ text ∈ slot.str, text ≠ [] ∧ 0 ∉ text

instance (slot : SavedSlot) : Decidable slot.Storable :=
  inferInstanceAs (Decidable (∀ text ∈ slot.str, text ≠ [] ∧ 0 ∉ text))

/-- The array has exactly the cells that its axes ask for, and not too many. -/
structure Grid.Storable (grid : Grid) : Prop where
  /-- The number of axes fits in 31 bits. -/
  axes : grid.dims.length < 2 ^ 31
  /-- No axis is negative. -/
  nonneg : ∀ d ∈ grid.dims, 0 ≤ d
  /-- The cells are those of the axes. -/
  count : Grid.cellCount? grid.dims = some grid.cells.size
  /-- There are not too many of them. -/
  small : grid.cells.size ≤ Grid.maxCells

-- The axes are looked at one by one, and not all integers whether they are axes.
instance (grid : Grid) : Decidable grid.Storable :=
  decidable_of_iff (grid.dims.length < 2 ^ 31 ∧ grid.dims.all (0 ≤ ·) = true ∧
      Grid.cellCount? grid.dims = some grid.cells.size ∧ grid.cells.size ≤ Grid.maxCells)
    ⟨fun ⟨axes, nonneg, count, small⟩ => ⟨axes, by simpa using nonneg, count, small⟩,
      fun ⟨axes, nonneg, count, small⟩ => ⟨axes, by simpa using nonneg, count, small⟩⟩

/-- A save that the format has room for. Flags, descriptions and the numbers of call kinds are
free. -/
structure Save.Storable (save : Save) : Prop where
  /-- The position. -/
  position : save.position.Storable
  /-- The number of frames fits in 31 bits. -/
  frameCount : save.frames.length < 2 ^ 31
  /-- Each frame. -/
  frames : ∀ frame ∈ save.frames, frame.Storable
  /-- The number of the first local slot fits in 31 bits. -/
  firstLocal : save.vars.firstLocal < 2 ^ 31
  /-- The number of local slots fits in 31 bits. -/
  localCount : save.vars.locals.length < 2 ^ 31
  /-- Each local slot. -/
  locals : ∀ slot ∈ save.vars.locals, slot.Storable
  /-- The number of further slots fits in 31 bits. -/
  overflowCount : save.vars.overflow.length < 2 ^ 31
  /-- Each further slot and its number. -/
  overflow : ∀ entry ∈ save.vars.overflow, entry.1 < 2 ^ 31 ∧ entry.2.Storable
  /-- The number of arrays fits in 31 bits. -/
  gridCount : save.vars.grids.length < 2 ^ 31
  /-- Each array. -/
  grids : ∀ entry ∈ save.vars.grids, entry.2.Storable

/-- Everything in front of the description of a save file. -/
def Save.bodyBytes (save : Save) : Bytes :=
  fileMark ++ fileVersion :: positionBytes save.position ++
    [boolByte save.inText, boolByte save.narrow] ++ listBytes frameBytes save.frames ++
    countBytes save.vars.firstLocal ++ listBytes slotBytes save.vars.locals ++
    listBytes numberedSlotBytes save.vars.overflow ++ listBytes gridBytes save.vars.grids

namespace Decoder

/-! ## The parts of a save -/

/-- An empty string read as none is empty again. -/
theorem getD_ite_isEmpty (text : Bytes) :
    (if text.isEmpty then none else some text).getD [] = text := by
  cases text <;> rfl

/-- A position is read as it was written. -/
theorem takes_savedPosition {position : SavedPosition} (h : position.Storable) :
    Takes savedPosition (Save.positionBytes position) position := by
  rw [Save.positionBytes, List.append_assoc]
  refine Takes.bind (takes_string h) ?_
  refine Takes.bind (takes_int32 position.line) ?_
  refine Takes.last (takes_int32 position.offset) ?_
  rw [getD_ite_isEmpty, Text.Utf8.decode_ofText, String.ofList_toList]
  exact Takes.pure position

private theorem yields_savedPosition : Yields savedPosition SavedPosition.Storable := by
  refine Yields.bind yields_string fun text? htext => ?_
  refine Yields.after fun line => Yields.after fun offset => Yields.pure ?_
  have hbytes : 0 ∉ text?.getD [] := by
    cases text? with
    | none => exact List.not_mem_nil
    | some text => exact (htext text rfl).2
  apply Text.Utf8.zero_notMem_ofText
  rw [String.toList_ofList]
  exact Text.Utf8.nul_notMem_decode hbytes

private theorem takes_pause (stop : Pause) : Takes pause [stop.code] stop := by
  refine Takes.last (takes_byte stop.code) ?_
  rw [Pause.ofCode?_code]
  exact Takes.pure stop

private theorem takes_savedBookmark {bookmark : SavedBookmark} (h : bookmark.Storable) :
    Takes savedBookmark (Save.bookmarkBytes bookmark) bookmark := by
  refine Takes.bind (takes_savedPosition h) ?_
  refine Takes.bind (takes_bool bookmark.narrow) ?_
  exact Takes.last (takes_pause bookmark.stop) (Takes.pure bookmark)

private theorem yields_savedBookmark : Yields savedBookmark SavedBookmark.Storable :=
  Yields.bind yields_savedPosition fun _ hposition =>
    Yields.after fun _ => Yields.after fun _ => Yields.pure hposition

private theorem takes_variableRef {ref : VariableRef} (h : ref.Storable) :
    Takes variableRef (Save.refBytes ref) ref := by
  cases ref with
  | int n => exact Takes.bind (takes_byte 0) (Takes.last (takes_natural h _) (Takes.pure _))
  | str n => exact Takes.bind (takes_byte 1) (Takes.last (takes_natural h _) (Takes.pure _))
  | array no indices =>
    simp only [Save.refBytes, List.cons_append, List.append_assoc]
    refine Takes.bind (takes_byte 2) ?_
    refine Takes.bind (takes_int32 no) ?_
    refine Takes.bind (takes_natural h _) ?_
    exact Takes.last (takes_many fun i _ => takes_int32 i) (Takes.pure _)

private theorem yields_variableRef : Yields variableRef VariableRef.Storable := by
  refine Yields.after fun tag => ?_
  split_ifs
  · exact Yields.bind (yields_natural _) fun n hn => Yields.pure hn
  · exact Yields.bind (yields_natural _) fun n hn => Yields.pure hn
  · refine Yields.after fun no => Yields.bind (yields_natural _) fun n hn => ?_
    refine Yields.bind (yields_many (P := fun _ => True) (fun _ _ _ _ => trivial) n) ?_
    rintro indices ⟨hlength, -⟩
    exact Yields.pure (show indices.length < 2 ^ 31 from hlength ▸ hn)
  · exact Yields.fail _

/-- So is a frame. -/
theorem takes_savedFrame {frame : SavedFrame} (h : frame.Storable) :
    Takes savedFrame (Save.frameBytes frame) frame := by
  cases frame with
  | call kind returnTo params bookmark =>
    obtain ⟨hreturn, hparams, hmark⟩ := h
    simp only [Save.frameBytes, List.cons_append, List.append_assoc]
    refine Takes.bind (takes_byte 0x43) ?_
    refine Takes.bind (takes_byte kind) ?_
    refine Takes.bind (takes_savedPosition hreturn) ?_
    refine Takes.bind (takes_option fun p hp => takes_savedPosition (hparams p hp)) ?_
    exact Takes.last (takes_option fun m hm => takes_savedBookmark (hmark m hm)) (Takes.pure _)
  | loop counter bound step body finished =>
    obtain ⟨hcounter, hbody⟩ := h
    simp only [Save.frameBytes, List.cons_append, List.append_assoc]
    refine Takes.bind (takes_byte 0x4c) ?_
    refine Takes.bind (takes_variableRef hcounter) ?_
    refine Takes.bind (takes_int32 bound) ?_
    refine Takes.bind (takes_int32 step) ?_
    refine Takes.bind (takes_savedPosition hbody) ?_
    exact Takes.last (takes_bool finished) (Takes.pure _)

private theorem yields_savedFrame : Yields savedFrame SavedFrame.Storable := by
  refine Yields.after fun tag => ?_
  split_ifs
  · refine Yields.after fun kind => Yields.bind yields_savedPosition fun returnTo hreturn => ?_
    refine Yields.bind (yields_option yields_savedPosition) fun params hparams => ?_
    refine Yields.bind (yields_option yields_savedBookmark) fun mark hmark => ?_
    exact Yields.pure ⟨hreturn, hparams, hmark⟩
  · refine Yields.bind yields_variableRef fun counter hcounter => ?_
    refine Yields.after fun bound => Yields.after fun step => ?_
    refine Yields.bind yields_savedPosition fun body hbody => Yields.after fun finished => ?_
    exact Yields.pure ⟨hcounter, hbody⟩
  · exact Yields.fail _

/-- So is a slot. -/
theorem takes_savedSlot {slot : SavedSlot} (h : slot.Storable) :
    Takes savedSlot (Save.slotBytes slot) slot := by
  obtain ⟨num, str⟩ := slot
  refine Takes.bind (takes_int32 num) ?_
  cases str with
  | none => exact Takes.last (takes_string List.not_mem_nil) (Takes.pure _)
  | some text =>
    obtain ⟨hne, hzero⟩ := h text rfl
    refine Takes.last (takes_string hzero) ?_
    rw [if_neg (by simpa using hne)]
    exact Takes.pure _

private theorem yields_savedSlot : Yields savedSlot SavedSlot.Storable :=
  Yields.after fun _ => Yields.bind yields_string fun _ hstr => Yields.pure hstr

private theorem takes_numberedSlot {entry : Nat × SavedSlot}
    (h : entry.1 < 2 ^ 31 ∧ entry.2.Storable) :
    Takes numberedSlot (Save.numberedSlotBytes entry) entry :=
  (takes_natural h.1 _).bind ((takes_savedSlot h.2).last (Takes.pure entry))

private theorem yields_numberedSlot :
    Yields numberedSlot fun entry => entry.1 < 2 ^ 31 ∧ entry.2.Storable :=
  Yields.bind (yields_natural _) fun _ hn =>
    Yields.bind yields_savedSlot fun _ hslot => Yields.pure ⟨hn, hslot⟩

private theorem takes_numberedGrid {fileSize : Nat} {entry : Int32 × Grid} (h : entry.2.Storable)
    (hsize : entry.2.cells.size * 4 ≤ fileSize) :
    Takes (numberedGrid fileSize) (Save.gridBytes entry) entry := by
  obtain ⟨no, dims, cells⟩ := entry
  have hany : ¬ dims.any (· < 0) = true := by
    simp only [List.any_eq_true, decide_eq_true_eq, not_exists, not_and]
    intro d hd
    exact Int32.not_lt.mpr (h.nonneg d hd)
  have hcount : ((Grid.cellCount? dims).filter
      fun n => n ≤ Grid.maxCells && n * 4 ≤ fileSize) = some cells.size := by
    rw [h.count, Option.filter_some, if_pos]
    simpa using ⟨h.small, hsize⟩
  simp only [Save.gridBytes, List.append_assoc]
  refine Takes.bind (takes_int32 no) ?_
  refine Takes.bind (takes_natural h.axes _) ?_
  refine Takes.bind (takes_many fun d _ => takes_int32 d) ?_
  rw [if_neg hany, hcount]
  have hcells : Takes (many int32 cells.size) (cells.toList.flatMap Save.int32Bytes)
      cells.toList := takes_many fun cell _ => takes_int32 cell
  exact Takes.last hcells (Takes.pure _)

private theorem yields_numberedGrid (fileSize : Nat) :
    Yields (numberedGrid fileSize) fun entry => entry.2.Storable := by
  refine Yields.after fun no => Yields.bind (yields_natural _) fun axes haxes => ?_
  refine Yields.bind (yields_many (P := fun _ => True) (fun _ _ _ _ => trivial) axes) ?_
  rintro dims ⟨hlength, -⟩
  refine Yields.guard fun hany => ?_
  have hnonneg : ∀ d ∈ dims, 0 ≤ d := by
    intro d hd
    refine Int32.not_lt.mp fun hlt => hany (List.any_eq_true.mpr ⟨d, hd, ?_⟩)
    exact decide_eq_true hlt
  dsimp only
  split
  · exact Yields.fail _
  · rename_i n hn
    rw [Option.filter_eq_some_iff, Bool.and_eq_true, decide_eq_true_eq] at hn
    obtain ⟨hcount, hsmall, -⟩ := hn
    refine Yields.bind (yields_many (P := fun _ => True) (fun _ _ _ _ => trivial) n) ?_
    rintro cells ⟨hcells, -⟩
    refine Yields.pure ⟨hlength ▸ haxes, hnonneg, ?_, ?_⟩
    · rw [hcount, List.size_toArray, hcells]
    · rw [List.size_toArray, hcells]
      exact hsmall

/-! ## Whole saves -/

private theorem takes_save {save : Save} (h : save.Storable) {fileSize : Nat}
    (hsize : ∀ entry ∈ save.vars.grids, entry.2.cells.size * 4 ≤ fileSize) :
    Takes (Decoder.save fileSize) save.bodyBytes { save with description := none } := by
  have hmark : Takes fourBytes Save.fileMark (0x4e, 0x53, 0x41, 0x56) := fun _ _ => rfl
  simp only [Save.bodyBytes, Save.listBytes, List.cons_append, List.append_assoc]
  refine Takes.bind hmark ?_
  refine Takes.bind (takes_byte Save.fileVersion) ?_
  refine Takes.bind (takes_savedPosition h.position) ?_
  refine Takes.bind (takes_bool save.inText) ?_
  refine Takes.bind (takes_bool save.narrow) ?_
  refine Takes.bind (takes_natural h.frameCount _) ?_
  refine Takes.bind (takes_many fun frame hmem => takes_savedFrame (h.frames frame hmem)) ?_
  refine Takes.bind (takes_natural h.firstLocal _) ?_
  refine Takes.bind (takes_natural h.localCount _) ?_
  refine Takes.bind (takes_many fun slot hmem => takes_savedSlot (h.locals slot hmem)) ?_
  refine Takes.bind (takes_natural h.overflowCount _) ?_
  refine Takes.bind (takes_many fun e hmem => takes_numberedSlot (h.overflow e hmem)) ?_
  refine Takes.bind (takes_natural h.gridCount _) ?_
  exact Takes.last
    (takes_many fun e hmem => takes_numberedGrid (h.grids e hmem) (hsize e hmem)) (Takes.pure _)

private theorem yields_save (fileSize : Nat) : Yields (Decoder.save fileSize) Save.Storable := by
  refine Yields.after fun mark => ?_
  obtain ⟨a, b, c, d⟩ := mark
  refine Yields.guard fun hmark => ?_
  refine Yields.after fun version => Yields.guard fun hversion => ?_
  refine Yields.bind yields_savedPosition fun position hposition => ?_
  refine Yields.after fun inText => Yields.after fun narrow => ?_
  refine Yields.bind (yields_natural _) fun frameCount hframeCount => ?_
  refine Yields.bind (yields_many yields_savedFrame frameCount) fun frames hframes => ?_
  refine Yields.bind (yields_natural _) fun firstLocal hfirst => ?_
  refine Yields.bind (yields_natural _) fun localCount hlocalCount => ?_
  refine Yields.bind (yields_many yields_savedSlot localCount) fun locals hlocals => ?_
  refine Yields.bind (yields_natural _) fun overflowCount hoverflowCount => ?_
  refine Yields.bind (yields_many yields_numberedSlot overflowCount) fun overflow hoverflow => ?_
  refine Yields.bind (yields_natural _) fun gridCount hgridCount => ?_
  refine Yields.bind (yields_many (yields_numberedGrid fileSize) gridCount) fun grids hgrids => ?_
  exact Yields.pure
    { position := hposition
      frameCount := hframes.1 ▸ hframeCount
      frames := hframes.2
      firstLocal := hfirst
      localCount := hlocals.1 ▸ hlocalCount
      locals := hlocals.2
      overflowCount := hoverflow.1 ▸ hoverflowCount
      overflow := hoverflow.2
      gridCount := hgrids.1 ▸ hgridCount
      grids := hgrids.2 }

end Decoder

namespace Save

/-- The file is long enough for the cells of every array. -/
theorem cells_le_length_toBytes {save : Save} {entry : Int32 × Grid}
    (hentry : entry ∈ save.vars.grids) :
    entry.2.cells.size * 4 ≤ save.toBytes.length := by
  have hcells : entry.2.cells.size * 4 ≤ (gridBytes entry).length := by
    obtain ⟨no, dims, cells⟩ := entry
    have hflat : (cells.toList.flatMap int32Bytes).length = cells.size * 4 := by
      rw [List.length_flatMap, ← Array.length_toList]
      simp [int32Bytes]
    simp only [gridBytes, List.length_append, hflat]
    omega
  have hlist : (gridBytes entry).length ≤ (save.vars.grids.flatMap gridBytes).length := by
    obtain ⟨before, after, hsplit⟩ := List.append_of_mem hentry
    rw [hsplit, List.flatMap_append, List.flatMap_cons]
    simp only [List.length_append]
    omega
  simp only [toBytes, listBytes, List.length_append]
  omega

/-- A description comes back, whatever its bytes. -/
theorem descriptionOf_descriptionBytes (description : Option Bytes) :
    descriptionOf (descriptionBytes description) = .ok description := by
  cases description with
  | none => rfl
  | some text =>
    simp only [descriptionBytes, descriptionOf, List.cons_append]
    rw [List.getLast?_append_of_ne_nil _ (by simp)]
    simp

/-- Reading a written save that is storable gives the save back. -/
theorem Storable.ofBytes_toBytes {save : Save} (h : save.Storable) :
    ofBytes save.toBytes = .ok save := by
  have hbody := Decoder.takes_save h (fun _ => cells_le_length_toBytes)
    (descriptionBytes save.description) 0
  have hsplit : save.toBytes = save.bodyBytes ++ descriptionBytes save.description := rfl
  rw [ofBytes, show Decoder.save save.toBytes.length { rest := save.toBytes, offset := 0 } = _
    from hbody]
  simp only [bind, Except.bind, descriptionOf_descriptionBytes]
  rfl

/-- A save that was read from a file is storable. -/
theorem storable_of_ofBytes {bytes : Bytes} {save : Save} (h : ofBytes bytes = .ok save) :
    save.Storable := by
  simp only [ofBytes, bind, Except.bind] at h
  cases hbody : Decoder.save bytes.length { rest := bytes, offset := 0 } with
  | error fault =>
    rw [hbody] at h
    cases h
  | ok read =>
    obtain ⟨body, feed⟩ := read
    have hstorable := Decoder.yields_save _ _ _ _ hbody
    rw [hbody] at h
    simp only at h
    cases hdescription : descriptionOf feed.rest with
    | error fault =>
      rw [hdescription] at h
      cases h
    | ok description =>
      rw [hdescription] at h
      cases h
      -- The description is no part of what storable asks for.
      exact { hstorable with }

/-- **Saves survive their file format.** Writing a storable save and reading the file gives the
save back. Whatever is read from a file, of any bytes at all, is storable, so that writing it
again and reading that gives the same save. -/
theorem survives_writing_and_reading (save : Save) :
    (save.Storable → ofBytes save.toBytes = .ok save) ∧
      ∀ bytes, ofBytes bytes = .ok save → save.Storable ∧ ofBytes save.toBytes = .ok save :=
  ⟨Storable.ofBytes_toBytes, fun _ h =>
    ⟨storable_of_ofBytes h, (storable_of_ofBytes h).ofBytes_toBytes⟩⟩

/-- A save inside a loop and a call from the middle of a text, with a description of quotes and
zero bytes. -/
def sample : Save where
  position := ⟨"start", 2, 7⟩
  inText := true
  narrow := false
  frames :=
    [.loop (.array 3 [0, 1]) 10 (-1) ⟨"", 0, 4⟩ false,
      .call 9 ⟨"é", 1, 0⟩ (some ⟨"start", 0, 12⟩) (some ⟨⟨"start", 2, 3⟩, true, .newPage⟩)]
  vars :=
    { firstLocal := 200
      locals := [⟨-5, none⟩, ⟨7, some [0x61, 0x62]⟩]
      overflow := [(5000, ⟨1, some [0x22]⟩)]
      grids := [(3, ⟨[1, 2], #[1, 2, 3, 4, 5, 6]⟩)] }
  description := some [0x22, 0x00, 0x22]

/-- The sample is storable, comes back from its own file, and is what that file gives. -/
theorem sample_survives : sample.Storable ∧ ofBytes sample.toBytes = .ok sample := by
  have hstorable : sample.Storable := by
    refine ⟨?_, ?_, ?_, ?_, ?_, ?_, ?_, ?_, ?_, ?_⟩ <;> decide +kernel
  have hback := (survives_writing_and_reading sample).1 hstorable
  exact (survives_writing_and_reading sample).2 _ hback

end Save

end NovelScript
