import NovelScript.Proofs.TextRun.Elements

/-!
# Click markers only split text

A click marker ends a run, and the next run starts without an open button and without the mark that
keeps a character from being a click marker. Apart from that an element reads the same, whatever the
click markers are and whatever was shown before it. So all runs of a line together take one passage
along the line, from element to element, which the click markers have no part in; and there is only
one passage to the end of a line.
-/

namespace NovelScript

namespace TextPiece

/-- Whether a piece is something else than characters. -/
def isMark : TextPiece → Bool
  | chars _ => false
  | _ => true

private theorem filter_isMark_pushChars (pieces : List TextPiece) (bytes : Bytes) :
    (pushChars pieces bytes).filter isMark = pieces.filter isMark := by
  fun_induction pushChars pieces bytes with
  | case1 bytes => rfl
  | case2 last bytes => rfl
  | case3 piece pieces bytes hlast ih => rw [List.filter_cons, List.filter_cons, ih]

end TextPiece

namespace TextReader

open NovelScript.Action (Paired)

/-- What the next element is read from, but for the click markers. -/
structure Standing where
  /-- The next byte to read. -/
  pos : Nat
  /-- Whether narrow mode is on. -/
  narrow : Bool
  /-- The variables. -/
  store : Store
  /-- Whether a button is open. -/
  buttonOpen : Bool

/-- Reading that starts there. -/
def Standing.progress (here : Standing) : Progress where
  pos := here.pos
  narrow := here.narrow
  store := here.store
  buttonOpen := here.buttonOpen

namespace Progress

/-- Where reading has come to. -/
def standing (p : Progress) : Standing :=
  ⟨p.pos, p.narrow, p.store, p.buttonOpen⟩

/-- The characters so far. -/
def text (p : Progress) : Bytes :=
  p.pieces.flatMap TextPiece.text

/-- All other pieces so far. -/
def marks (p : Progress) : List TextPiece :=
  p.pieces.filter TextPiece.isMark

end Progress

/-- Both stand at the same place, and the second one has shown the given text and marks in front of
what the first one has shown. -/
structure Behind (text : Bytes) (marks : List TextPiece) (q p : Progress) : Prop where
  /-- The place. -/
  standing : p.standing = q.standing
  /-- The text. -/
  text : p.text = text ++ q.text
  /-- The marks. -/
  marks : p.marks = marks ++ q.marks

/-- Both run ends are at the end of the line, or none is. -/
def SameEnd (stop stop' : Option Pause) : Prop :=
  stop = some .endOfLine ↔ stop' = some .endOfLine

namespace Behind

variable {text : Bytes} {marks : List TextPiece} {p q : Progress}

private theorem start (p : Progress) : Behind p.text p.marks p.standing.progress p where
  standing := rfl
  text := (List.append_nil _).symm
  marks := (List.append_nil _).symm

variable (h : Behind text marks q p)
include h

private theorem pos : p.pos = q.pos :=
  congrArg Standing.pos h.standing

private theorem narrow : p.narrow = q.narrow :=
  congrArg Standing.narrow h.standing

private theorem store : p.store = q.store :=
  congrArg Standing.store h.standing

private theorem buttonOpen : p.buttonOpen = q.buttonOpen :=
  congrArg Standing.buttonOpen h.standing

/-- Both go on elsewhere. -/
theorem move {p' q' : Progress} (move : Standing → Standing)
    (hp : p'.standing = move p.standing) (hq : q'.standing = move q.standing)
    (hpieces : p'.pieces = p.pieces) (hpieces' : q'.pieces = q.pieces) : Behind text marks q' p' where
  standing := by rw [hp, hq, h.standing]
  text := by simpa only [Progress.text, hpieces, hpieces'] using h.text
  marks := by simpa only [Progress.marks, hpieces, hpieces'] using h.marks

/-- Both show the same. -/
theorem adds {p' q' : Progress} (bytes : Bytes) (pieces : List TextPiece)
    (hp : p'.standing = p.standing) (hq : q'.standing = q.standing)
    (htext : p'.text = p.text ++ bytes) (htext' : q'.text = q.text ++ bytes)
    (hmarks : p'.marks = p.marks ++ pieces) (hmarks' : q'.marks = q.marks ++ pieces) :
    Behind text marks q' p' where
  standing := by rw [hp, hq, h.standing]
  text := by rw [htext, htext', h.text, List.append_assoc]
  marks := by rw [hmarks, hmarks', h.marks, List.append_assoc]

end Behind

/-- Started at one place, both do the same, and what they give is related by `A`, whatever was shown
before. -/
def Abreast {α : Type} (A : α → α → Prop) (x y : Reader α) : Prop :=
  ∀ ⦃text marks q p⦄, Behind text marks q p →
    Paired (fun a q' b p' => A a b ∧ Behind text marks q' p') (x q) (y p)

/-- What is done does not depend on what was shown before. -/
def Blind {α : Type} (x : Reader α) : Prop :=
  Abreast Eq x x

namespace Blind

variable {α β : Type} {x : Reader α} {f : α → Reader β}

/-- Doing nothing is blind to the markers. -/
protected theorem pure (a : α) : Blind (Pure.pure a) := fun _ _ _ _ h => .ok ⟨rfl, h⟩

/-- One action after another that is blind to the markers. -/
protected theorem bind (hx : Blind x) (hf : ∀ a, Blind (f a)) : Blind (x >>= f) := by
  intro text marks q p h
  refine (hx h).bind fun a q' b p' hab => ?_
  rw [← hab.1]
  exact hf a hab.2

/-- Looking at the place. -/
theorem look {f : Progress → Reader β} (hf : ∀ p, Blind (f p))
    (hplace : ∀ p q : Progress, p.standing = q.standing → f p = f q) :
    Blind (MonadState.get >>= f) := by
  intro text marks q p h
  rw [Action.get_bind, Action.get_bind, hplace p q h.standing]
  exact hf q h

/-- Going on elsewhere. -/
protected theorem modify {f : Progress → Progress} (move : Standing → Standing)
    (hmove : ∀ p, (f p).standing = move p.standing) (hpieces : ∀ p, (f p).pieces = p.pieces) :
    Blind (modify f) :=
  fun _ _ _ _ h => .ok ⟨rfl, h.move move (hmove _) (hmove _) (hpieces _) (hpieces _)⟩

private theorem ofExcept_bind {op : Except Fault α} (hf : ∀ a, Blind (f a)) :
    Blind (Action.ofExcept op >>= f) :=
  fun _ _ _ _ h => .ofExcept_bind fun a _ => hf a h

private theorem moveTo (pos : Nat) : Blind (moveTo pos) :=
  Blind.modify (fun here => { here with pos }) (fun _ => rfl) fun _ => rfl

private theorem warn (warning : Warning) : Blind (warn warning) :=
  Blind.modify id (fun _ => rfl) fun _ => rfl

private theorem push (piece : TextPiece) : Blind (push piece) := by
  intro text marks q p h
  refine .ok ⟨rfl, h.adds piece.text ([piece].filter TextPiece.isMark) rfl rfl ?_ ?_ ?_ ?_⟩
  · simp [Progress.text]
  · simp [Progress.text]
  · exact List.filter_append ..
  · exact List.filter_append ..

private theorem pushChars (bytes : Bytes) : Blind (pushChars bytes) := by
  intro text marks q p h
  refine .ok ⟨rfl, h.adds bytes [] rfl rfl ?_ ?_ ?_ ?_⟩
  · exact TextPiece.text_pushChars ..
  · exact TextPiece.text_pushChars ..
  · rw [List.append_nil]
    exact TextPiece.filter_isMark_pushChars ..
  · rw [List.append_nil]
    exact TextPiece.filter_isMark_pushChars ..

variable (setup : Setup)

private theorem operand (read : Operand.Scope → Operand.Reader α) : Blind (setup.operand read) := by
  intro text marks q p h
  rw [Setup.operand, Action.get_bind, Action.get_bind, h.pos, h.narrow, h.store]
  generalize (read _).run _ = result
  cases result with
  | ok value cursor =>
    refine .ok ⟨rfl, ?_, h.text, h.marks⟩
    exact congrArg (Standing.mk cursor.pos q.narrow q.store) h.buttonOpen
  | error fault cursor => exact .error _ _ _

private theorem interpolateInt : Blind setup.interpolateInt := by
  refine .bind (operand setup _) fun target => look (fun p => ?_) fun p q h => ?_
  · exact ofExcept_bind fun value => pushChars _
  · rw [show p.store = q.store from congrArg Standing.store h,
      show p.narrow = q.narrow from congrArg Standing.narrow h]

private theorem interpolateStr : Blind setup.interpolateStr := by
  refine .bind (operand setup _) fun n => look (fun p => pushChars _) fun p q h => ?_
  rw [show p.store = q.store from congrArg Standing.store h]

private theorem block (assignments : Nat) : Blind (setup.block assignments) := by
  induction assignments with
  | zero => exact .pure _
  | succ assignments ih =>
    refine look (fun p => .bind (moveTo _) fun _ => ?_) fun p q h => ?_
    · split
      · exact warn _
      · next b hb =>
        split
        · exact moveTo _
        · split
          · exact warn _
          · refine .bind (operand setup _) fun assigned => look (fun p => ?_) fun p q h => ?_
            · refine ofExcept_bind fun store => .bind (Blind.modify (fun here => { here with
                store, pos := setup.script.eat Byte.comma (setup.script.skipBlanks here.pos) })
                (fun _ => rfl) fun _ => rfl) fun _ => ih
            · rw [show p.store = q.store from congrArg Standing.store h]
    · rw [show p.pos = q.pos from congrArg Standing.pos h]

private theorem button : Blind setup.button := by
  intro text marks q p h
  rw [Setup.button, Action.get_bind, Action.get_bind, h.pos]
  let after := setup.script.advanceWhile Byte.isDigit (q.pos + 1)
  exact push _ (h.move (fun here => { here with pos := after, buttonOpen := true }) rfl rfl rfl rfl)

private theorem thenPure {x : Reader Unit} (hx : Blind x) (stop : Option Pause) :
    Blind (x >>= fun _ => Pure.pure stop) :=
  .bind hx fun _ => .pure stop

/-- All elements but characters. -/
theorem act {element : Script.Element} (h : element ≠ .character) : Blind (setup.act element) := by
  cases element with
  | lineEnd => exact .pure _
  | pause stop =>
    refine look (fun p => (moveTo _).thenPure _) fun p q h => ?_
    rw [show p.pos = q.pos from congrArg Standing.pos h]
  | unmark =>
    exact .bind (Blind.modify (fun here => { here with pos := here.pos + 1 }) (fun _ => rfl)
      fun _ => rfl) fun _ => .pure _
  | narrowSwitch =>
    intro text marks q p h
    rw [Setup.act, Action.get_bind, Action.get_bind, h.narrow]
    exact (push _).thenPure none (h.move
      (fun here => { here with pos := here.pos + 1, narrow := !q.narrow }) rfl rfl rfl rfl)
  | int => exact (interpolateInt setup).thenPure _
  | str => exact (interpolateStr setup).thenPure _
  | block =>
    refine look (fun p => .bind (moveTo _) fun _ => (block setup _).thenPure _) fun p q h => ?_
    rw [show p.pos = q.pos from congrArg Standing.pos h]
  | button => exact (button setup).thenPure _
  | buttonEnd =>
    refine .bind (Blind.modify (fun here => { here with pos := here.pos + 1, buttonOpen := false })
      (fun _ => rfl) fun _ => rfl) fun _ => (push _).thenPure _
  | mark piece after => exact .bind (moveTo _) fun _ => (push _).thenPure _
  | character => exact absurd rfl h

end Blind

/-- The same text with other click markers. -/
def Setup.withMarkers (setup : Setup) (markers : List Bytes) : Setup :=
  { setup with style := { setup.style with clickMarkers := markers } }

namespace Setup

variable (setup : Setup) (markers : List Bytes)

private theorem block_withMarkers (assignments : Nat) :
    (setup.withMarkers markers).block assignments = setup.block assignments := by
  induction assignments with
  | zero => rfl
  | succ assignments ih =>
    rw [block, block, ih]
    rfl

/-- Only characters are looked at to see whether they are click markers. -/
theorem act_withMarkers {element : Script.Element} (h : element ≠ .character) :
    (setup.withMarkers markers).act element = setup.act element := by
  cases element with
  | character => exact absurd rfl h
  | block =>
    simp only [act, block_withMarkers]
    rfl
  | _ => rfl

/-- A character is shown whether or not the run ends behind it. -/
theorem abreast_character :
    Abreast SameEnd (setup.withMarkers markers).character setup.character := by
  intro text marks q p h
  rw [character, character, Action.get_bind, Action.get_bind, h.pos, h.narrow]
  let after := q.pos + setup.script.charWidth q.narrow q.pos
  have hmoved : Behind text marks { q with pos := after, unmarked := false }
      { p with pos := after, narrow := q.narrow, unmarked := false } :=
    h.move (fun here => { here with pos := after, narrow := q.narrow }) rfl rfl rfl rfl
  refine Paired.bind (A := fun _ q' _ p' => Behind text marks q' p') (.ok hmoved)
    fun _ q' _ p' hmoved => ?_
  refine (Blind.pushChars _ hmoved).bind fun _ q' _ p' hadded => ?_
  have hend : ∀ {c d : Prop} [Decidable c] [Decidable d],
      Paired (fun stop q' stop' p' => SameEnd stop stop' ∧ Behind text marks q' p')
        ((if c then pure (some .clickWaitOrNewPage) else pure none : Reader _) q')
        ((if d then pure (some .clickWaitOrNewPage) else pure none : Reader _) p') := by
    intro c d _ _
    split <;> split <;> exact .ok ⟨by simp [SameEnd], hadded.2⟩
  exact hend

private theorem abreast_element :
    Abreast SameEnd (setup.withMarkers markers).element setup.element := by
  intro text marks q p h
  rw [element_eq, element_eq, h.pos, h.buttonOpen]
  change Paired _ ((setup.withMarkers markers).act (setup.script.element q.buttonOpen q.pos) q) _
  by_cases hcharacter : setup.script.element q.buttonOpen q.pos = .character
  · rw [hcharacter]
    exact setup.abreast_character markers h
  · rw [setup.act_withMarkers markers hcharacter]
    exact (Blind.act setup hcharacter h).imp fun a q' b p' hab => ⟨hab.1 ▸ Iff.rfl, hab.2⟩

end Setup

/-! ## Passages along a line -/

/-- From one place to another, from element to element; what is shown between them. -/
inductive Passage (setup : Setup) : Standing → Bytes → List TextPiece → Standing → Prop where
  /-- Staying there. -/
  | nil (here : Standing) : Passage setup here [] [] here
  /-- Over an element. -/
  | cons {here there : Standing} {stop : Option Pause} {p : Progress} {text : Bytes}
      {marks : List TextPiece} (h : setup.element here.progress = .ok stop p)
      (hstop : stop ≠ some .endOfLine) (hrest : Passage setup p.standing text marks there) :
      Passage setup here (p.text ++ text) (p.marks ++ marks) there

namespace Passage

variable {setup : Setup} {here there : Standing} {text text' : Bytes} {marks marks' : List TextPiece}

private theorem append {middle : Standing} (h : Passage setup here text marks middle)
    (h' : Passage setup middle text' marks' there) :
    Passage setup here (text ++ text') (marks ++ marks') there := by
  induction h with
  | nil => exact h'
  | cons hrun hstop _ ih =>
    rw [List.append_assoc, List.append_assoc]
    exact .cons hrun hstop (ih h')

/-- At the end of the line there is no further element. -/
theorem eq_of_atLineEnd (h : Passage setup here text marks there)
    (hend : setup.script.AtLineEnd here.pos) : text = [] ∧ marks = [] ∧ there = here := by
  cases h with
  | nil => exact ⟨rfl, rfl, rfl⟩
  | cons hrun hstop =>
    have hline := Setup.element_of_atLineEnd (p := here.progress) hend
    rw [hline] at hrun
    cases hrun
    exact absurd rfl hstop

/-- There is one passage to the end of the line. -/
theorem unique {there' : Standing} (h : Passage setup here text marks there)
    (hend : setup.script.AtLineEnd there.pos) (h' : Passage setup here text' marks' there')
    (hend' : setup.script.AtLineEnd there'.pos) : text' = text ∧ marks' = marks ∧ there' = there := by
  induction h generalizing text' marks' with
  | nil => exact h'.eq_of_atLineEnd hend
  | @cons here there stop p text marks hrun hstop hrest ih =>
    cases h' with
    | nil =>
      rw [Setup.element_of_atLineEnd (p := there'.progress) hend'] at hrun
      cases hrun
      exact absurd rfl hstop
    | cons hrun' hstop' hrest' =>
      rw [hrun] at hrun'
      cases hrun'
      obtain ⟨rfl, rfl, rfl⟩ := ih hend hrest'
      exact ⟨rfl, rfl, rfl⟩

end Passage

section

variable {setup : Setup} {p q : Progress} {stop : Pause}

/-- The elements of a run make a passage, which the click markers have no part in. -/
theorem passage_of_elements (markers : List Bytes) {count : Nat}
    (hcount : setup.script.size < p.pos + count) (h : setup.elements count p = .ok stop q) :
    ∃ text marks, Passage (setup.withMarkers markers) p.standing text marks q.standing ∧
      q.text = p.text ++ text ∧ q.marks = p.marks ++ marks ∧
      (stop = .endOfLine → setup.script.AtLineEnd q.pos) := by
  induction count generalizing p with
  | zero =>
    cases h
    refine ⟨[], [], .nil _, (List.append_nil _).symm, (List.append_nil _).symm, fun _ b hb => ?_⟩
    exact absurd (Script.lt_size_of_byte? hb) (by omega)
  | succ count ih =>
    obtain ⟨found, middle, hrun, hrest⟩ := Action.exists_of_run_eq_ok h
    obtain ⟨found', apart, hrun', hsame, hbehind⟩ :=
      (setup.abreast_element markers (.start p)).exists_of_eq_ok hrun
    rcases Setup.element_takes hrun with ⟨hstop, hlt⟩ | ⟨rfl, rfl, hend⟩
    · have hfirst := Passage.cons hrun' (fun h => hstop (hsame.mp h)) (.nil _)
      rw [← hbehind.standing, List.append_nil, List.append_nil] at hfirst
      cases found with
      | some pause =>
        cases hrest
        exact ⟨_, _, hfirst, hbehind.text, hbehind.marks, fun h => absurd (congrArg some h) hstop⟩
      | none =>
        obtain ⟨text, marks, hpassage, htext, hmarks, hlast⟩ := ih (by omega) hrest
        refine ⟨_, _, hfirst.append hpassage, ?_, ?_, hlast⟩
        · rw [htext, hbehind.text, List.append_assoc]
        · rw [hmarks, hbehind.marks, List.append_assoc]
    · cases hrest
      exact ⟨[], [], .nil _, (List.append_nil _).symm, (List.append_nil _).symm, fun _ => hend⟩

/-- A run that gives no warning of an open button leaves none open. -/
theorem passage_of_run (markers : List Bytes) (h : setup.run p = .ok stop q)
    (hclosed : .openButton ∉ q.warnings) :
    ∃ text marks, Passage (setup.withMarkers markers) p.standing text marks q.standing ∧
      q.text = p.text ++ text ∧ q.marks = p.marks ++ marks ∧ q.buttonOpen = false ∧
      (stop = .endOfLine → setup.script.AtLineEnd q.pos) := by
  rw [Setup.run, Action.get_bind] at h
  obtain ⟨found, last, hrun, hrest⟩ := Action.exists_of_run_eq_ok h
  obtain ⟨text, marks, hpassage, htext, hmarks, hlast⟩ :=
    passage_of_elements markers (by omega) hrun
  rw [Action.get_bind] at hrest
  cases hopen : last.buttonOpen with
  | false =>
    rw [hopen] at hrest
    cases hrest
    exact ⟨text, marks, hpassage, htext, hmarks, hopen, hlast⟩
  | true =>
    rw [hopen] at hrest
    cases hrest
    simp at hclosed

end

/-! ## All runs of a line -/

/-- Where a run of text starts. -/
@[ext]
structure Place where
  /-- The address. -/
  addr : Nat
  /-- Whether narrow mode is on. -/
  narrow : Bool
  /-- The variables. -/
  store : Store

/-- The runs of a line, read one after another up to its end. -/
inductive ReadsLine (setup : Setup) : Place → List Delivery → Place → Prop where
  /-- The last run. -/
  | last {start : Place} {delivery : Delivery} {store : Store}
      (h : read setup start.store start.addr start.narrow = (.ok delivery, store))
      (hstop : delivery.run.stop = .endOfLine) :
      ReadsLine setup start [delivery] ⟨delivery.next, delivery.narrow, store⟩
  /-- A run in front of others. -/
  | more {start stop : Place} {delivery : Delivery} {store : Store} {deliveries : List Delivery}
      (h : read setup start.store start.addr start.narrow = (.ok delivery, store))
      (hstop : delivery.run.stop ≠ .endOfLine)
      (hrest : ReadsLine setup ⟨delivery.next, delivery.narrow, store⟩ deliveries stop) :
      ReadsLine setup start (delivery :: deliveries) stop

/-- All characters of some runs. -/
def allText (deliveries : List Delivery) : Bytes :=
  deliveries.flatMap fun delivery => delivery.run.text

/-- All pieces of some runs that are no characters. -/
def allMarks (deliveries : List Delivery) : List TextPiece :=
  deliveries.flatMap fun delivery => delivery.run.pieces.filter TextPiece.isMark

/-- At the start of a run no button is open. -/
def Place.standing (script : Script) (start : Place) : Standing :=
  ⟨min start.addr script.size, start.narrow, start.store, false⟩

variable {setup : Setup}

private theorem passage_of_read {start : Place} {delivery : Delivery} {store : Store}
    (markers : List Bytes)
    (h : read setup start.store start.addr start.narrow = (.ok delivery, store))
    (hclosed : .openButton ∉ delivery.warnings) :
    let next : Place := ⟨delivery.next, delivery.narrow, store⟩
    Passage (setup.withMarkers markers) (start.standing setup.script) delivery.run.text
        (delivery.run.pieces.filter TextPiece.isMark) (next.standing setup.script) ∧
      (delivery.run.stop = .endOfLine →
        setup.script.AtLineEnd (next.standing setup.script).pos) := by
  intro next
  have hsize : delivery.next ≤ setup.script.size :=
    next_read_le_size (congrArg Prod.fst h)
  rw [read] at h
  split at h
  · next stop q hrun =>
    cases h
    obtain ⟨text, marks, hpassage, htext, hmarks, hopen, hlast⟩ := passage_of_run markers hrun hclosed
    have hnext : next.standing setup.script = q.standing := by
      rw [Place.standing, Nat.min_eq_left hsize, Progress.standing, hopen]
    rw [hnext]
    rw [← show q.text = text from htext, ← show q.marks = marks from hmarks] at hpassage
    exact ⟨hpassage, hlast⟩
  · cases h

/-- All runs of a line make one passage to its end. -/
theorem passage_of_readsLine {start stop : Place} {deliveries : List Delivery}
    (markers : List Bytes) (h : ReadsLine setup start deliveries stop)
    (hclosed : ∀ delivery ∈ deliveries, .openButton ∉ delivery.warnings) :
    Passage (setup.withMarkers markers) (start.standing setup.script) (allText deliveries)
        (allMarks deliveries) (stop.standing setup.script) ∧
      setup.script.AtLineEnd (stop.standing setup.script).pos ∧ stop.addr ≤ setup.script.size := by
  induction h with
  | last h hstop =>
    obtain ⟨hpassage, hlast⟩ := passage_of_read markers h (hclosed _ (by simp))
    refine ⟨?_, hlast hstop, next_read_le_size (congrArg Prod.fst h)⟩
    simpa [allText, allMarks] using hpassage
  | more h hstop hrest ih =>
    obtain ⟨hpassage, -⟩ := passage_of_read markers h (hclosed _ (by simp))
    obtain ⟨hpassage', hend, hsize⟩ := ih fun delivery hmem => hclosed delivery (by simp [hmem])
    exact ⟨hpassage.append hpassage', hend, hsize⟩

/-- **Click markers only split text.** Reading all runs of a line with one set of click markers and
with another one comes to the same place with the same variables, and shows the same characters and
the same other pieces, as long as no run leaves a button open. -/
theorem markers_only_split {start stop stop' : Place} {deliveries deliveries' : List Delivery}
    (markers markers' : List Bytes)
    (h : ReadsLine (setup.withMarkers markers) start deliveries stop)
    (h' : ReadsLine (setup.withMarkers markers') start deliveries' stop')
    (hclosed : ∀ delivery ∈ deliveries, .openButton ∉ delivery.warnings)
    (hclosed' : ∀ delivery ∈ deliveries', .openButton ∉ delivery.warnings) :
    allText deliveries' = allText deliveries ∧ allMarks deliveries' = allMarks deliveries ∧
      stop' = stop := by
  obtain ⟨hpassage, hend, hsize⟩ := passage_of_readsLine [] h hclosed
  obtain ⟨hpassage', hend', hsize'⟩ := passage_of_readsLine [] h' hclosed'
  obtain ⟨htext, hmarks, hstanding⟩ := hpassage.unique hend hpassage' hend'
  obtain ⟨haddr, hnarrow, hstore, -⟩ := Standing.mk.inj hstanding
  rw [Nat.min_eq_left hsize, Nat.min_eq_left hsize'] at haddr
  exact ⟨htext, hmarks, Place.ext haddr hnarrow hstore⟩

/-- The line `a。{%0=4}%0`, with the full stop of Japanese. -/
def assigningLine : Setup where
  script := ⟨(Bytes.ofText "a。\x7b%0=4\x7d%0\n").toArray, .utf8⟩
  aliases := {}
  style := { clickMarkers := [], wideDigits := false, numberPad := 0 }

/-- With the full stop as a click marker that line has two runs, and without click markers it has
one. -/
theorem markers_only_split_assigningLine :
    ∃ whole first second stop,
      ReadsLine (assigningLine.withMarkers []) ⟨0, false, .blank 1 0⟩ [whole] stop ∧
      ReadsLine (assigningLine.withMarkers [Bytes.ofText "。"]) ⟨0, false, .blank 1 0⟩
        [first, second] stop ∧
      whole.run.pieces = [.chars (Bytes.ofText "a。4")] ∧
      first.run.pieces = [.chars (Bytes.ofText "a。")] ∧
      allText [first, second] = allText [whole] ∧ allMarks [first, second] = allMarks [whole] := by
  let whole : Delivery :=
    { run := { pieces := [.chars (Bytes.ofText "a。4")], stop := .endOfLine, start := 0 },
      next := 12, narrow := false, warnings := [] }
  let first : Delivery :=
    { run := { pieces := [.chars (Bytes.ofText "a。")], stop := .clickWaitOrNewPage, start := 0 },
      next := 4, narrow := false, warnings := [] }
  let second : Delivery :=
    { run := { pieces := [.chars (Bytes.ofText "4")], stop := .endOfLine, start := 4 },
      next := 12, narrow := false, warnings := [] }
  have hwhole : ReadsLine (assigningLine.withMarkers []) ⟨0, false, .blank 1 0⟩ [whole]
      ⟨12, false, (Store.blank 1 0).setInt 0 4⟩ := .last (by decide +kernel) rfl
  have hsplit : ReadsLine (assigningLine.withMarkers [Bytes.ofText "。"]) ⟨0, false, .blank 1 0⟩
      [first, second] ⟨12, false, (Store.blank 1 0).setInt 0 4⟩ :=
    have hfirst : read (assigningLine.withMarkers [Bytes.ofText "。"]) (.blank 1 0) 0 false =
        (.ok first, .blank 1 0) := by decide +kernel
    .more hfirst (by decide) (.last (by decide +kernel) rfl)
  obtain ⟨htext, hmarks, -⟩ := markers_only_split [] [Bytes.ofText "。"] hwhole hsplit
    (by simp [whole]) (by simp [first, second])
  exact ⟨whole, first, second, _, hwhole, hsplit, rfl, rfl, htext, hmarks⟩

end TextReader

end NovelScript
