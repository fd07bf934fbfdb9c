import Mathlib.Data.Nat.Log
import NovelScript.Machine.Step
import NovelScript.Proofs.Expression.Numerals
import NovelScript.Proofs.Store.WellFormed
import NovelScript.Proofs.Text.Characters
import NovelScript.Proofs.Text.Slices

/-!
# Numbers as text

A number that is written in ordinary digits is read back as it was, whatever its size, its sign and
the zeros in front of it. In full-width digits it has one character for each digit, with the values
of the ordinary ones.
-/

namespace NovelScript

/-! ## Digits -/

namespace Decimal

/-- A number has one digit more than its tenth, unless it has only one. -/
theorem length_digits (n : Nat) : (digits n).length = Nat.log 10 n + 1 := by
  fun_induction digits n with
  | case1 n h => rw [List.length_singleton, Nat.log_of_lt h]
  | case2 n h ih =>
    rw [List.length_append, ih, List.length_singleton,
      Nat.log_of_one_lt_of_le (by omega) (show 10 ≤ n by omega)]

private theorem length_paddedDigits (n width : Nat) :
    (paddedDigits n width).length = max width (Nat.log 10 n + 1) := by
  rw [paddedDigits, List.length_append, List.length_replicate, length_digits]
  omega

/-- Zeros in front make no difference to what digits denote. -/
theorem foldl_paddedDigits (n width : Nat) :
    (paddedDigits n width).foldl (fun value d => value * 10 + d) 0 = n := by
  have hzeros : ∀ k, (List.replicate k 0).foldl (fun value d => value * 10 + d) 0 = 0 := by
    intro k
    induction k with
    | zero => rfl
    | succ k ih => rw [List.replicate_succ, List.foldl_cons, ih]
  rw [paddedDigits, List.foldl_append, hzeros, foldl_digits]

/-- The byte of a digit has its value. -/
theorem digit?_digitByte : ∀ d < 10, Byte.digit? (digitByte d) = some d := by
  decide

/-! ## Reading -/

/-- The digits of a text are read in 32-bit arithmetic. -/
theorem textValue_digitChars {ds : List Nat} (h : ∀ d ∈ ds, d < 10) :
    textValue (ds.map digitChar) =
      Int32.ofNat (ds.foldl (fun value d => value * 10 + d) 0) := by
  have hall : ∀ c ∈ ds.map digitChar, Char.isDigit c = true := by
    intro c hc
    obtain ⟨d, hd, rfl⟩ := List.mem_map.mp hc
    exact (digitChar_facts d (h d hd)).2.1
  have hvalues : (ds.map digitChar).map (fun c => c.toNat - 48) = ds := by
    rw [List.map_map]
    exact (List.map_congr_left fun d hd => (digitChar_facts d (h d hd)).2.2.2.2).trans (List.map_id ds)
  rw [textValue, List.takeWhile_eq_self_iff.mpr hall, hvalues, value]
  exact foldl_shiftIn 10 ds 0

/-- A script integer is its magnitude with its sign, also the least one, whose magnitude does not
fit in 32 bits. -/
theorem ofNat_natAbs (value : Int32) :
    (if value < 0 then -Int32.ofNat value.toInt.natAbs else Int32.ofNat value.toInt.natAbs) =
      value := by
  have hsign : value < 0 ↔ value.toInt < 0 := Int32.lt_iff_toInt_lt
  rw [← Int32.ofInt_eq_ofNat, ← Int32.ofInt_neg]
  split
  · next hnegative =>
    rw [hsign] at hnegative
    have hmagnitude : -(value.toInt.natAbs : Int) = value.toInt := by omega
    rw [hmagnitude, Int32.ofInt_toInt]
  · next hnegative =>
    rw [hsign] at hnegative
    have hmagnitude : (value.toInt.natAbs : Int) = value.toInt := by omega
    rw [hmagnitude, Int32.ofInt_toInt]

private theorem leadingInt_digitBytes {ds : List Nat} (hds : ds ≠ []) (h : ∀ d ∈ ds, d < 10) :
    leadingInt (ds.map digitByte) =
      Int32.ofNat (ds.foldl (fun value d => value * 10 + d) 0) := by
  have hvalue := textValue_digitChars h
  obtain ⟨d, rest, rfl⟩ := List.exists_cons_of_ne_nil hds
  obtain ⟨hblank, -, hplus, hminus, -⟩ := digitChar_facts d (h d List.mem_cons_self)
  have htrim : Text.trimStart ((d :: rest).map digitChar) = (d :: rest).map digitChar := by
    refine Text.trimStart_of_not_isBlank fun c hc => ?_
    obtain rfl : digitChar d = c := by simpa using hc
    exact hblank
  rw [leadingInt, decode_digitBytes h, htrim, ← hvalue]
  split
  · next heq => exact absurd (List.cons.inj heq).1 hminus
  · next heq => exact absurd (List.cons.inj heq).1 hplus
  · rfl

private theorem leadingInt_minus {ds : List Nat} (h : ∀ d ∈ ds, d < 10) :
    leadingInt (Byte.minus :: ds.map digitByte) =
      -Int32.ofNat (ds.foldl (fun value d => value * 10 + d) 0) := by
  have hascii : Bytes.IsAscii (Byte.minus :: ds.map digitByte) :=
    List.forall_mem_cons.mpr ⟨by decide, isAscii_digitBytes h⟩
  have hdecode : Text.Utf8.decode (Byte.minus :: ds.map digitByte) = '-' :: ds.map digitChar := by
    rw [Text.Utf8.decode_ascii hascii, List.map_cons, ← Text.Utf8.decode_ascii
      (isAscii_digitBytes h), decode_digitBytes h]
    rfl
  have htrim : Text.trimStart ('-' :: ds.map digitChar) = '-' :: ds.map digitChar := rfl
  rw [leadingInt, hdecode, htrim, ← textValue_digitChars h]
  rfl

end Decimal

namespace Encoding

open Decimal

/-- A number in ordinary digits. -/
theorem formatNumber_narrow (e : Encoding) (value : Int32) (pad : Nat) :
    e.formatNumber value false pad = (if value < 0 then [Byte.minus] else []) ++
      (paddedDigits value.toInt.natAbs pad).map digitByte := by
  rw [formatNumber, ← List.flatMap_pure_eq_map]
  rfl

/-- **A number is read back as it was written.** -/
theorem leadingInt_formatNumber (e : Encoding) (value : Int32) (pad : Nat) :
    leadingInt (e.formatNumber value false pad) = value := by
  have hdigits := paddedDigits_lt value.toInt.natAbs pad
  have hvalue := foldl_paddedDigits value.toInt.natAbs pad
  have hback := ofNat_natAbs value
  rw [formatNumber_narrow]
  split
  · next hnegative =>
    rw [if_pos hnegative] at hback
    rw [List.singleton_append, leadingInt_minus hdigits, hvalue, hback]
  · next hnegative =>
    rw [if_neg hnegative] at hback
    rw [List.nil_append, leadingInt_digitBytes (paddedDigits_ne_nil _ _) hdigits, hvalue, hback]

private theorem ofInt_eq_formatNumber (e : Encoding) (value : Int32) :
    ofInt value = e.formatNumber value false 0 := by
  rw [formatNumber_narrow, ofInt, paddedDigits, Nat.zero_sub, List.replicate_zero, List.nil_append]
  split <;> rfl

/-! ## Full-width digits -/

/-- Whether a character is complete: as long as its first byte says. -/
def isWhole (e : Encoding) : Bytes → Bool
  | [] => false
  | b :: rest => rest.length + 1 == e.width false b

/-- The value of a full-width digit, told by the character that it is shown as. -/
def wideValue? (e : Encoding) (table : Text.ShiftJis.Table) (char : Bytes) : Option Nat :=
  match (e.display char table).toList with
  | [c] => if 0xff10 ≤ c.toNat ∧ c.toNat ≤ 0xff19 then some (c.toNat - 0xff10) else none
  | _ => none

private theorem chars_flatten_of_isWhole {e : Encoding} {parts : List Bytes}
    (h : ∀ char ∈ parts, e.isWhole char = true) : e.chars parts.flatten = parts := by
  refine AreChars.chars_flatten ?_
  induction parts with
  | nil => exact .nil
  | cons char parts ih =>
    obtain ⟨hchar, hparts⟩ := List.forall_mem_cons.mp h
    cases char with
    | nil => cases hchar
    | cons b rest => exact .cons (beq_iff_eq.mp hchar) (ih hparts)

/-- The bytes of a pair that the table has are shown as its character. -/
theorem decode_pair {table : Text.ShiftJis.Table} {lead second : UInt8} {c : Char}
    (hlead : Text.ShiftJis.isLead lead = true) (h : table.char? lead second = some c) :
    Text.ShiftJis.decode table [lead, second] = [c] := by
  simp only [Text.ShiftJis.decode, Text.ShiftJis.decodeAfter, hlead, if_true, h]

private theorem isWhole_wideDigit (e : Encoding) : ∀ d < 10, e.isWhole (e.wideDigit d) = true := by
  cases e <;> decide +kernel

/-- Full-width digits are shown with their values, whatever else the table has. -/
theorem wideValue?_wideDigit (e : Encoding) (table : Text.ShiftJis.Table) {d : Nat} (h : d < 10) :
    e.wideValue? table (e.wideDigit d) = some d := by
  have hvalue : ∀ d < 10, (match [Char.ofNat (0xff10 + d)] with
      | [c] => if 0xff10 ≤ c.toNat ∧ c.toNat ≤ 0xff19 then some (c.toNat - 0xff10) else none
      | _ => none) = some d := by
    decide +kernel
  cases e with
  | shiftJis =>
    have hdecode := decode_pair (show Text.ShiftJis.isLead 0x82 = true from rfl)
      (table.char?_digit d h)
    simp only [wideValue?, display, wideDigit, String.toList_ofList, hdecode]
    exact hvalue d h
  | utf8 =>
    have hutf8 : ∀ d < 10, utf8.wideValue? .common (utf8.wideDigit d) = some d := by
      decide +kernel
    exact hutf8 d h

private theorem isWhole_wideMinus (e : Encoding) : e.isWhole e.wideMinus = true := by
  cases e <;> decide +kernel

/-- The full-width minus sign is shown as one, whatever else the table has. -/
theorem display_wideMinus (e : Encoding) (table : Text.ShiftJis.Table) :
    e.display e.wideMinus table = "－" := by
  cases e with
  | shiftJis =>
    have hdecode := decode_pair (show Text.ShiftJis.isLead 0x81 = true from rfl) table.char?_minus
    simp only [display, wideMinus, hdecode]
  | utf8 =>
    have hutf8 : utf8.display utf8.wideMinus .common = "－" := by decide +kernel
    exact hutf8

/-- The characters of a number in full-width digits. -/
theorem chars_formatNumber_wide (e : Encoding) (value : Int32) (pad : Nat) :
    e.chars (e.formatNumber value true pad) = (if value < 0 then [e.wideMinus] else []) ++
      (paddedDigits value.toInt.natAbs pad).map e.wideDigit := by
  have hsign : (if value < 0 then e.wideMinus else []) =
      (if value < 0 then [e.wideMinus] else []).flatten := by
    split
    · rw [List.flatten_singleton]
    · rfl
  have hformat : e.formatNumber value true pad = ((if value < 0 then [e.wideMinus] else []) ++
      (paddedDigits value.toInt.natAbs pad).map e.wideDigit).flatten := by
    rw [List.flatten_append, ← hsign, ← List.flatMap_def]
    rfl
  rw [hformat, chars_flatten_of_isWhole]
  refine List.forall_mem_append.mpr ⟨fun char hchar => ?_, fun char hchar => ?_⟩
  · obtain rfl : char = e.wideMinus := by
      split at hchar
      · exact List.mem_singleton.mp hchar
      · cases hchar
    exact e.isWhole_wideMinus
  · obtain ⟨d, hd, rfl⟩ := List.mem_map.mp hchar
    exact e.isWhole_wideDigit d (paddedDigits_lt _ _ d hd)

end Encoding

/-! ## Commands -/

/-- A string that is stored in a slot is there. -/
theorem Store.str_setStr (store : Store) (n : Nat) (value : Bytes) :
    (store.setStr n value).str n = value := by
  rw [str, setStr, slot_modifySlot, if_pos rfl]
  cases value with
  | nil => rfl
  | cons b rest => rfl

namespace Machine

/-- What a number is stored as in a string variable. -/
theorem execute_itoa {m m₁ m₂ : Machine} {n : Nat} {value : Int32}
    (htarget : readStrTarget m = .ok n m₁) (hvalue : readInt m₁ = .ok value m₂) :
    execute .itoa m =
      .ok .advance { m₂ with store := m₂.store.setStr n (Decimal.ofInt value) } := by
  show (readStrTarget >>= _ : Run Outcome) m = _
  rw [Action.bind_of_ok htarget, Action.bind_of_ok hvalue]
  rfl

/-- What number is read from a string. -/
theorem execute_atoi {m m₁ m₂ : Machine} {target : VariableRef} {text : Bytes}
    (htarget : readIntTarget m = .ok target m₁) (htext : readStr m₁ = .ok text m₂) :
    execute .atoi m =
      (writeInt target (Decimal.leadingInt text) >>= fun _ => pure .advance : Run Outcome) m₂ := by
  show (readIntTarget >>= _ : Run Outcome) m = _
  rw [Action.bind_of_ok htarget, Action.bind_of_ok htext]

end Machine

open Machine in
/-- **Numbers survive being written and read.** In both encodings, every script integer that is
written in ordinary digits, with any number of zeros in front, is read back as it was; and a string
variable that was given a number gives that number to whatever variable is given the number of the
string. In full-width digits the number has one character for the sign if it is negative, and as
many others as the number has digits, or as the padding wants; they have the values of the ordinary
digits, in the same order, by any table of the double-byte characters. -/
theorem numbers_survive (e : Encoding) (table : Text.ShiftJis.Table) (value : Int32) (pad : Nat) :
    Decimal.leadingInt (e.formatNumber value false pad) = value ∧
    (∀ (m m₁ m₂ : Machine) (n : Nat),
      readStrTarget m = .ok n m₁ → readInt m₁ = .ok value m₂ →
        ∃ stored, execute .itoa m = .ok .advance stored ∧
          ∀ (k k₁ k₂ : Machine) (target : VariableRef),
            readIntTarget k = .ok target k₁ → readStr k₁ = .ok (stored.store.str n) k₂ →
              execute .atoi k =
                (writeInt target value >>= fun _ => pure .advance : Run Outcome) k₂) ∧
    ∃ (narrowDigits : Bytes) (wideDigits : List Bytes) (digits : List Nat),
      e.formatNumber value false pad = (if value < 0 then [Byte.minus] else []) ++ narrowDigits ∧
      e.chars (e.formatNumber value true pad) =
        (if value < 0 then [e.wideMinus] else []) ++ wideDigits ∧
      e.display e.wideMinus table = "－" ∧
      wideDigits.length = max pad (Nat.log 10 value.toInt.natAbs + 1) ∧
      narrowDigits.map Byte.digit? = digits.map some ∧
      wideDigits.map (e.wideValue? table) = digits.map some := by
  refine ⟨e.leadingInt_formatNumber value pad, fun m m₁ m₂ n htarget hvalue => ?_, ?_⟩
  · refine ⟨_, execute_itoa htarget hvalue, fun k k₁ k₂ target htarget htext => ?_⟩
    rw [execute_atoi htarget htext, Store.str_setStr, Encoding.ofInt_eq_formatNumber e,
      Encoding.leadingInt_formatNumber]
  · have hdigits := Decimal.paddedDigits_lt value.toInt.natAbs pad
    refine ⟨_, _, Decimal.paddedDigits value.toInt.natAbs pad, e.formatNumber_narrow value pad,
      e.chars_formatNumber_wide value pad, e.display_wideMinus table, ?_, ?_, ?_⟩
    · rw [List.length_map, Decimal.length_paddedDigits]
    · rw [List.map_map]
      exact List.map_congr_left fun d hd => Decimal.digit?_digitByte d (hdigits d hd)
    · rw [List.map_map]
      exact List.map_congr_left fun d hd => e.wideValue?_wideDigit table (hdigits d hd)

/-- A script that writes the least integer as a string and reads it back. -/
def leastScript : Script where
  bytes := (Bytes.ofText "itoa $3, -2147483647 - 1\natoi %2, $3\n").toArray
  encoding := .shiftJis

/-- The machine in front of the operands of the first command. -/
def atWriting : Machine :=
  { Machine.fresh leastScript { variableSlots := 8 } .absent with pc := 4 }

/-- The machine in front of those of the second one. -/
def atReading : Machine :=
  { Action.after (Machine.execute .itoa) atWriting with pc := 29 }

open Machine in
/-- The least integer comes back, though its magnitude is too large for an integer. -/
theorem numbers_survive_least :
    let value : Int32 := -2147483648
    Decimal.leadingInt (Encoding.shiftJis.formatNumber value false 12) = value ∧
      ∃ m₁ m₂ stored k₁ k₂ : Machine,
        readStrTarget atWriting = .ok 3 m₁ ∧ readInt m₁ = .ok value m₂ ∧
        execute .itoa atWriting = .ok .advance stored ∧
        stored.store.str 3 = Bytes.ofText "-2147483648" ∧
        readIntTarget atReading = .ok (.int 2) k₁ ∧ readStr k₁ = .ok (stored.store.str 3) k₂ ∧
        execute .atoi atReading =
          (writeInt (.int 2) value >>= fun _ => pure .advance : Run Outcome) k₂ ∧
        (Action.after (execute .atoi) atReading).store.int 2 = value := by
  intro value
  have htarget : readStrTarget atWriting = .ok 3 (Action.after readStrTarget atWriting) :=
    Action.eq_ok_of_value? (by decide +kernel)
  have hvalue : readInt (Action.after readStrTarget atWriting) =
      .ok value (Action.after readInt (Action.after readStrTarget atWriting)) :=
    Action.eq_ok_of_value? (by decide +kernel)
  have hread : readIntTarget atReading = .ok (.int 2) (Action.after readIntTarget atReading) :=
    Action.eq_ok_of_value? (by decide +kernel)
  have hstr : readStr (Action.after readIntTarget atReading) = .ok (Bytes.ofText "-2147483648")
      (Action.after readStr (Action.after readIntTarget atReading)) :=
    Action.eq_ok_of_value? (by decide +kernel)
  obtain ⟨hback, hcommands, -⟩ := numbers_survive .shiftJis .common value 12
  obtain ⟨stored, hstored, hatoi⟩ := hcommands _ _ _ _ htarget hvalue
  have htext : stored.store.str 3 = Bytes.ofText "-2147483648" := by
    rw [← Action.after_of_ok hstored]
    decide +kernel
  have hstored' := htext ▸ hstr
  exact ⟨hback, _, _, stored, _, _, htarget, hvalue, hstored, htext, hread, hstored',
    hatoi _ _ _ _ hread hstored', by decide +kernel⟩

end NovelScript
