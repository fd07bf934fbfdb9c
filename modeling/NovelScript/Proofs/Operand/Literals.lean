import NovelScript.Proofs.Operand.Passing

/-!
# Literals in both modes

What is in a literal is read character by character, and in narrow mode every byte of the
double-byte encoding is a character of its own. So a literal has the same end in both modes, unless
the second byte of one of its characters looks like its delimiter, or like the end of the line.
-/

namespace NovelScript

/-- Whether no character in a literal has the delimiter of the literal, or a newline, behind its
first byte. If the first character stands in a literal, `opened` is its delimiter. -/
def Bytes.literalsWhole : (opened : Option UInt8) → (chars : List Bytes) → Bool
  | _, [] => true
  | none, char :: chars =>
    literalsWhole (if char = [Byte.quote] ∨ char = [Byte.backquote] then char.head? else none) chars
  | some delimiter, char :: chars =>
    if char = [delimiter] ∨ char = [Byte.newline] then literalsWhole none chars
    else char.tail.all (fun b => !(b == Byte.newline || b == delimiter)) &&
      literalsWhole (some delimiter) chars

/-- The literals of a text are no shorter in the given mode than they are if all its characters are
whole. Only the double-byte encoding has a mode where they are not. -/
def Encoding.KeepsLiterals (e : Encoding) (narrow : Bool) (text : Bytes) : Prop :=
  e = .shiftJis → narrow = true → Bytes.literalsWhole none (e.chars text) = true

/-- The mode matters for characters of two bytes only. -/
theorem Encoding.of_width_ne {e : Encoding} {narrow : Bool} {b : UInt8}
    (h : e.width narrow b ≠ e.width false b) :
    e = .shiftJis ∧ narrow = true ∧ e.width narrow b = 1 ∧ e.width false b = 2 := by
  cases e with
  | utf8 => exact absurd rfl h
  | shiftJis =>
    cases narrow with
    | false => exact absurd rfl h
    | true =>
      cases hlead : Text.ShiftJis.isLead b with
      | true => exact ⟨rfl, rfl, rfl, by rw [width, hlead]; rfl⟩
      | false => exact absurd (by rw [width, width, hlead]; rfl) h

namespace Script

variable {s t : Script} {x y n j k pos stop : Nat} {b delimiter : UInt8} {narrow : Bool}

/-- A scan over characters stops only where it should. -/
theorem byte?_advanceChars (s : Script) (narrow : Bool) (p : UInt8 → Bool) (pos : Nat) :
    ∀ b ∈ s.byte? (s.advanceChars narrow p pos), p b = true := by
  fun_induction advanceChars s narrow p pos with
  | case1 pos hpos hstop =>
    intro b hb
    cases (Array.getElem?_eq_getElem hpos).symm.trans hb
    exact hstop
  | case2 pos _ _ ih => exact ih
  | case3 pos hpos => exact fun b hb => absurd (lt_size_of_byte? hb) hpos

/-- The characters that come next are a first one and those behind it. -/
theorem chars_slice (hb : s.byte? pos = some b) (hlt : pos < stop) :
    s.encoding.chars (s.slice pos stop) =
      (b :: (s.slice (pos + 1) stop).take (s.encoding.width false b - 1)) ::
        s.encoding.chars (s.slice (pos + s.encoding.width false b) stop) := by
  have hwidth := s.encoding.width_pos false b
  have hnext : pos + s.encoding.width false b = pos + 1 + (s.encoding.width false b - 1) := by omega
  rw [slice_eq_cons hb hlt, Encoding.chars, hnext, slice_add s (pos + 1)]

/-- There is nothing between an address and one that is not behind it. -/
theorem slice_eq_nil (h : stop ≤ pos ∨ s.size ≤ pos) : s.slice pos stop = [] := by
  rw [slice, Array.toList_extract, List.extract_eq_take_drop, List.take_eq_nil_iff,
    List.drop_eq_nil_iff, Array.length_toList]
  exact h.imp Nat.sub_eq_zero_of_le id

/-! ## Along a text -/

/-- At `pos`, in a literal with the given delimiter or in none, the rest of a text up to `stop`
keeps its literals. -/
structure Along (s : Script) (narrow : Bool) (stop : Nat) (opened : Option UInt8) (pos : Nat) :
    Prop where
  /-- It is an address. -/
  le_size : pos ≤ s.size
  /-- The rest keeps its literals. -/
  whole : s.encoding = .shiftJis → narrow = true →
    Bytes.literalsWhole opened (s.encoding.chars (s.slice pos stop)) = true

namespace Along

variable {opened opened' : Option UInt8}

/-- Behind the text nothing is left that might not keep its literals. -/
theorem behind (hsize : pos ≤ s.size) (hstop : stop ≤ pos ∨ s.size ≤ pos) :
    s.Along narrow stop opened pos where
  le_size := hsize
  whole _ _ := by rw [slice_eq_nil hstop, Encoding.chars, Bytes.literalsWhole]

/-- Over an ASCII byte, which may begin or end a literal. -/
theorem ascii (h : s.Along narrow stop opened pos) (hb : s.byte? pos = some b) (hascii : b < 0x80)
    (hnext : ∀ chars, Bytes.literalsWhole opened ([b] :: chars) = true →
      Bytes.literalsWhole opened' chars = true) : s.Along narrow stop opened' (pos + 1) where
  le_size := lt_size_of_byte? hb
  whole hsjis hnarrow := by
    rcases Nat.lt_or_ge pos stop with hlt | hge
    · have hwhole := h.whole hsjis hnarrow
      rw [chars_slice hb hlt, s.encoding.width_ascii false hascii] at hwhole
      exact hnext _ hwhole
    · exact (behind (lt_size_of_byte? hb) (.inl (Nat.le_succ_of_le hge))).whole hsjis hnarrow

/-- In a literal, no character of the text has a byte behind its first one that ends it. -/
theorem of_char (h : s.Along narrow stop (some delimiter) pos) (hb : s.byte? pos = some b)
    (hgo : (b == Byte.newline || b == delimiter) = false) (hlt : pos < stop)
    (hsjis : s.encoding = .shiftJis) (hnarrow : narrow = true) :
    (((s.slice (pos + 1) stop).take (s.encoding.width false b - 1)).all
        fun b => !(b == Byte.newline || b == delimiter)) = true ∧
      Bytes.literalsWhole (some delimiter)
        (s.encoding.chars (s.slice (pos + s.encoding.width false b) stop)) = true := by
  have hwhole := h.whole hsjis hnarrow
  rw [chars_slice hb hlt, Bytes.literalsWhole, if_neg, Bool.and_eq_true] at hwhole
  · exact hwhole
  · rw [Bool.or_eq_false_iff, beq_eq_false_iff_ne, beq_eq_false_iff_ne] at hgo
    rintro (hchar | hchar)
    · exact hgo.2 (List.head_eq_of_cons_eq hchar)
    · exact hgo.1 (List.head_eq_of_cons_eq hchar)

/-- Over a character of a literal. -/
theorem char (h : s.Along narrow stop (some delimiter) pos) (hb : s.byte? pos = some b)
    (hgo : (b == Byte.newline || b == delimiter) = false) :
    s.Along narrow stop (some delimiter) (pos + s.charWidth false pos) := by
  have hsize := s.add_charWidth_le_size false h.le_size
  have hwidth : s.charWidth false pos = min (s.encoding.width false b) (s.size - pos) :=
    charWidth_of_byte? hb
  have hpos := lt_size_of_byte? hb
  rcases Nat.lt_or_ge pos stop with hlt | hge
  · rcases Nat.lt_or_ge s.size (pos + s.encoding.width false b) with hcut | hfits
    · exact behind hsize (.inr (by omega))
    · rw [show s.charWidth false pos = s.encoding.width false b by omega] at hsize ⊢
      exact ⟨hsize, fun hsjis hnarrow => (h.of_char hb hgo hlt hsjis hnarrow).2⟩
  · exact behind hsize (.inl (by omega))

/-- The second byte of a character does not end the literal. -/
theorem second {c : UInt8} (h : s.Along narrow stop (some delimiter) pos)
    (hb : s.byte? pos = some b) (hgo : (b == Byte.newline || b == delimiter) = false)
    (hsjis : s.encoding = .shiftJis) (hnarrow : narrow = true) (hwide : s.encoding.width false b = 2)
    (hc : s.byte? (pos + 1) = some c) (hlt : pos + 1 < stop) :
    (c == Byte.newline || c == delimiter) = false := by
  have hall := (h.of_char hb hgo (Nat.lt_of_succ_lt hlt) hsjis hnarrow).1
  rw [slice_eq_cons hc hlt, hwide, List.all_eq_true] at hall
  exact Bool.not_eq_true' _ |>.mp (hall c List.mem_cons_self)

/-- Up to the end of a literal. -/
theorem advanceChars (h : s.Along narrow stop (some delimiter) pos) :
    s.Along narrow stop (some delimiter)
      (s.advanceChars false (fun b => b == Byte.newline || b == delimiter) pos) := by
  fun_induction Script.advanceChars s false (fun b => b == Byte.newline || b == delimiter) pos with
  | case1 | case3 => exact h
  | case2 pos hpos hgo ih =>
    exact ih (h.char (Array.getElem?_eq_getElem hpos) (Bool.not_eq_true _ |>.mp hgo))

/-- Over an ASCII byte that begins no literal. -/
theorem outside (h : s.Along narrow stop none pos) (hb : s.byte? pos = some b) (hascii : b < 0x80)
    (hquote : b ≠ Byte.quote) (hbackquote : b ≠ Byte.backquote) :
    s.Along narrow stop none (pos + 1) := by
  refine h.ascii hb hascii fun chars hwhole => ?_
  rwa [Bytes.literalsWhole, if_neg] at hwhole
  rintro (hchar | hchar)
  · exact hquote (List.head_eq_of_cons_eq hchar)
  · exact hbackquote (List.head_eq_of_cons_eq hchar)

/-- Behind a delimiter a literal has begun. -/
theorem begun (h : s.Along narrow stop none pos)
    (hdelimiter : delimiter = Byte.quote ∨ delimiter = Byte.backquote)
    (hat : s.isAt pos delimiter = true) : s.Along narrow stop (some delimiter) (pos + 1) := by
  refine h.ascii (beq_iff_eq.mp hat) (by rcases hdelimiter with rfl | rfl <;> decide)
    fun chars hwhole => ?_
  rwa [Bytes.literalsWhole, if_pos (by rcases hdelimiter with rfl | rfl <;> decide)] at hwhole

/-- Where the line ends, no literal goes on. -/
theorem unclosed (h : s.Along narrow stop (some delimiter) pos)
    (hend : ∀ b ∈ s.byte? pos, (b == Byte.newline || b == delimiter) = true)
    (hclosed : ¬ s.isAt pos delimiter = true) : s.Along narrow stop none pos := by
  cases hb : s.byte? pos with
  | none => exact behind h.le_size (.inr (Array.getElem?_eq_none_iff.mp hb))
  | some b =>
    have hnewline : b = Byte.newline := by
      rcases Bool.or_eq_true_iff.mp (hend b hb) with hnewline | hdelimiter
      · exact beq_iff_eq.mp hnewline
      · exact absurd (beq_iff_eq.mpr (hb.trans (congrArg some (beq_iff_eq.mp hdelimiter)))) hclosed
    subst hnewline
    refine ⟨h.le_size, fun hsjis hnarrow => ?_⟩
    rcases Nat.lt_or_ge pos stop with hlt | hge
    · have hwhole := h.whole hsjis hnarrow
      rw [chars_slice hb hlt, s.encoding.width_ascii false (by decide)] at hwhole ⊢
      rw [Bytes.literalsWhole, if_neg (by simp [Byte.newline, Byte.quote, Byte.backquote])]
      rwa [Bytes.literalsWhole, if_pos (.inr (by simp))] at hwhole
    · rw [slice_eq_nil (.inl hge), Encoding.chars, Bytes.literalsWhole]

end Along

/-- Operands stay along the text. -/
theorem passable_along (s : Script) (narrow : Bool) (stop : Nat) :
    s.Passable false (s.Along narrow stop none) where
  le_size h := h.le_size
  byte hin h := by
    obtain ⟨b, hb, hin⟩ := (Option.any_eq_true _ _).mp hin
    refine h.outside hb (Byte.inline_of_inExpression hin).1 ?_ ?_
    · rintro rfl
      exact absurd hin (by decide)
    · rintro rfl
      exact absurd hin (by decide)
  literal {pos delimiter} hdelimiter hat h := by
    have hascii : delimiter < 0x80 := by
      rcases hdelimiter with rfl | rfl <;> decide
    have hend := (h.begun hdelimiter hat).advanceChars
    have hstop := s.byte?_advanceChars false (fun b => b == Byte.newline || b == delimiter) (pos + 1)
    rw [literalEnd, eat]
    split
    · next hclosed =>
      refine hend.ascii (beq_iff_eq.mp hclosed) hascii fun chars hwhole => ?_
      rwa [Bytes.literalsWhole, if_pos (.inl rfl)] at hwhole
    · next hclosed => exact hend.unclosed hstop hclosed

namespace SameText

variable (h : SameText s t x y n)
include h

private theorem exists_byte? (hj : j < n) :
    ∃ b, s.byte? (x + j) = some b ∧ t.byte? (y + j) = some b := by
  have hsize := h.leftSize
  have hlt : x + j < s.bytes.size := show x + j < s.size by omega
  have hb : s.byte? (x + j) = some s.bytes[x + j] := Array.getElem?_eq_getElem hlt
  exact ⟨_, hb, (h.byte j hj).trans hb⟩

/-- The literal in the second script goes on over the character that is next. -/
theorem advanceChars_char (hencoding : t.encoding = s.encoding)
    (halong : s.Along narrow (x + n) (some delimiter) (x + j)) (hb : s.byte? (x + j) = some b)
    (hgo : (b == Byte.newline || b == delimiter) = false)
    (hle : j + s.encoding.width false b < n) :
    t.advanceChars narrow (fun b => b == Byte.newline || b == delimiter) (y + j) =
      t.advanceChars narrow (fun b => b == Byte.newline || b == delimiter)
        (y + (j + s.encoding.width false b)) := by
  have hsize := h.rightSize
  have hpositive := s.encoding.width_pos false b
  have hb' : t.byte? (y + j) = some b := (h.byte j (by omega)).trans hb
  have hstep := advanceChars_of_byte? hb' narrow fun b => b == Byte.newline || b == delimiter
  rw [hgo, if_neg Bool.false_ne_true, charWidth_of_byte? hb', hencoding] at hstep
  by_cases hsame : s.encoding.width narrow b = s.encoding.width false b
  · rw [hstep, hsame, Nat.min_eq_left (by omega), Nat.add_assoc]
  · -- Only in narrow mode are the two bytes of a character told apart.
    obtain ⟨hsjis, hnarrow, hone, htwo⟩ := Encoding.of_width_ne hsame
    obtain ⟨c, hc, hc'⟩ := h.exists_byte? (show j + 1 < n by omega)
    have hgo' := halong.second hb hgo hsjis hnarrow htwo hc (by omega)
    have hwidth : t.charWidth narrow (y + (j + 1)) = 1 := by
      rw [charWidth_of_byte? hc', hencoding, hsjis, hnarrow]
      simp only [Encoding.width, Bool.not_true, Bool.false_and, Bool.false_eq_true, if_false]
      omega
    rw [hstep, hone, htwo, Nat.min_eq_left (by omega), Nat.add_assoc, advanceChars_of_byte? hc', hgo',
      if_neg Bool.false_ne_true, hwidth, Nat.add_assoc, Nat.add_assoc]

/-- A literal that is closed within the text is closed at the same place. -/
theorem advanceChars_eq (hencoding : t.encoding = s.encoding)
    (halong : s.Along narrow (x + n) (some delimiter) (x + j)) (hk : k < n)
    (hstop : s.advanceChars false (fun b => b == Byte.newline || b == delimiter) (x + j) = x + k) :
    t.advanceChars narrow (fun b => b == Byte.newline || b == delimiter) (y + j) = y + k := by
  have hsize := h.leftSize
  -- Every character that is passed over leaves less of the literal.
  induction hleft : k - j using Nat.strongRecOn generalizing j with
  | ind left ih =>
    have hjk : j ≤ k := by
      have hle := s.le_advanceChars false (fun b => b == Byte.newline || b == delimiter) (x + j)
      omega
    obtain ⟨b, hb, hb'⟩ := h.exists_byte? (show j < n by omega)
    rw [advanceChars_of_byte? hb] at hstop
    cases hgo : b == Byte.newline || b == delimiter with
    | true =>
      rw [hgo, if_pos rfl] at hstop
      rw [advanceChars_of_byte? hb', hgo, if_pos rfl]
      omega
    | false =>
      rw [hgo, if_neg Bool.false_ne_true] at hstop
      have hpositive := s.encoding.width_pos false b
      have hle := s.le_advanceChars false (fun b => b == Byte.newline || b == delimiter)
        (x + j + s.charWidth false (x + j))
      have hwidth : s.charWidth false (x + j) =
          min (s.encoding.width false b) (s.size - (x + j)) := charWidth_of_byte? hb
      have hwhole : s.charWidth false (x + j) = s.encoding.width false b := by omega
      have hnext := halong.char hb hgo
      rw [hwhole, Nat.add_assoc] at hstop hnext hle
      rw [h.advanceChars_char hencoding halong hb hgo (by omega)]
      exact ih (k - (j + s.encoding.width false b)) (by omega) hnext hstop rfl

end SameText

end Script

end NovelScript
