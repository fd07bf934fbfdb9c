import Mathlib.Algebra.Group.Nat.Defs
import Mathlib.Data.List.Basic
import NovelScript.Save.Codec

/-!
# Laws of readers of stored data

Two judgements about a reader, both closed under sequencing. `Takes item bytes a` says that the
reader takes exactly `bytes` off the front of whatever follows and gives `a`: it is how a reader
is compared with a writer. `Yields item P` says that whatever the reader gives, on any bytes at
all, satisfies `P`: it is what a file can be trusted with.
-/

namespace NovelScript.Decoder

variable {α β : Type}

/-- The reader takes exactly `bytes` off the front and gives `a`. -/
def Takes (item : Decoder α) (bytes : Bytes) (a : α) : Prop :=
  ∀ rest offset, item ⟨bytes ++ rest, offset⟩ = .ok (a, ⟨rest, offset + bytes.length⟩)

/-- Whatever the reader gives satisfies `P`. -/
def Yields (item : Decoder α) (P : α → Prop) : Prop :=
  ∀ feed a next, item feed = .ok (a, next) → P a

/-! ## Sequencing -/

/-- Nothing need be taken to give a result. -/
theorem Takes.pure (a : α) : Takes (Pure.pure a) [] a := fun _ _ => rfl

/-- What is taken by one decoder and then by another is taken by both in a row. -/
theorem Takes.bind {item : Decoder α} {f : α → Decoder β} {bytes more : Bytes} {a : α} {b : β}
    (hitem : Takes item bytes a) (hf : Takes (f a) more b) :
    Takes (item >>= f) (bytes ++ more) b := by
  intro rest offset
  have hstep : (item >>= f) ⟨bytes ++ more ++ rest, offset⟩ =
      f a ⟨more ++ rest, offset + bytes.length⟩ := by
    rw [List.append_assoc]
    simp only [Bind.bind, StateT.bind, hitem (more ++ rest) offset]
    rfl
  rw [hstep, hf rest, List.length_append, Nat.add_assoc]

/-- A step after which no more bytes are taken. -/
theorem Takes.last {item : Decoder α} {f : α → Decoder β} {bytes : Bytes} {a : α} {b : β}
    (hitem : Takes item bytes a) (hf : Takes (f a) [] b) : Takes (item >>= f) bytes b := by
  have h := hitem.bind hf
  rwa [List.append_nil] at h

/-- A result that is given at once is good if it satisfies `P`. -/
theorem Yields.pure {P : α → Prop} {a : α} (ha : P a) : Yields (Pure.pure a) P := by
  rintro feed _ next ⟨⟩
  exact ha

/-- A failure yields nothing. -/
theorem Yields.fail {P : α → Prop} (fault : Fault) : Yields (MonadExcept.throw fault) P := by
  rintro feed a next ⟨⟩

/-- The second decoder may rely on what the first one yields. -/
theorem Yields.bind {item : Decoder α} {f : α → Decoder β} {P : α → Prop} {Q : β → Prop}
    (hitem : Yields item P) (hf : ∀ a, P a → Yields (f a) Q) : Yields (item >>= f) Q := by
  intro feed b last h
  simp only [Bind.bind, StateT.bind] at h
  cases hrun : item feed with
  | error fault =>
    rw [hrun] at h
    cases h
  | ok found =>
    obtain ⟨a, middle⟩ := found
    rw [hrun] at h
    exact hf a (hitem feed a middle hrun) middle b last h

/-- A step of which nothing needs to be known. -/
theorem Yields.after {item : Decoder α} {f : α → Decoder β} {Q : β → Prop}
    (hf : ∀ a, Yields (f a) Q) : Yields (item >>= f) Q :=
  Yields.bind (P := fun _ => True) (fun _ _ _ _ => trivial) fun a _ => hf a

/-- A check in front of the next step. -/
theorem Yields.guard {c : Prop} [Decidable c] {fault : Fault} {f : Unit → Decoder β}
    {Q : β → Prop} (hf : ¬ c → Yields (f ()) Q) :
    Yields (if c then throw fault >>= f else f ()) Q := by
  split
  · exact Yields.bind (Yields.fail (P := fun _ => False) fault) fun _ h => False.elim h
  · next hc => exact hf hc

/-! ## Numbers and truth values -/

/-- A byte is taken as it is. -/
theorem takes_byte (b : UInt8) : Takes byte [b] b := fun _ _ => rfl

/-- Four bytes hold any 32-bit integer. -/
theorem takes_int32 (value : Int32) : Takes int32 (Save.int32Bytes value) value := by
  have hlt : value.toUInt32.toNat < 4294967296 := value.toUInt32.toNat_lt
  have hword : UInt32.ofNat
      ((UInt8.ofNat value.toUInt32.toNat).toNat +
        256 * (UInt8.ofNat (value.toUInt32.toNat / 256)).toNat +
        65536 * (UInt8.ofNat (value.toUInt32.toNat / 65536)).toNat +
        16777216 * (UInt8.ofNat (value.toUInt32.toNat / 16777216)).toNat) = value.toUInt32 := by
    apply UInt32.toNat_inj.mp
    simp only [UInt8.toNat_ofNat', UInt32.toNat_ofNat']
    omega
  intro rest offset
  show Except.ok ((UInt32.ofNat _).toInt32, _) = _
  rw [hword]
  rfl

/-- A 32-bit integer that must not be negative; `refuse` is the fault of a negative one. Counts
and the numbers of variables are read so. -/
def natural (refuse : Int32 → Fault) : Decoder Nat := do
  let n ← int32
  if n < 0 then throw (refuse n)
  return n.toInt.toNat

/-- A number below 2³¹ comes back. -/
theorem takes_natural {n : Nat} (hn : n < 2 ^ 31) (refuse : Int32 → Fault) :
    Takes (natural refuse) (Save.countBytes n) n := by
  have hint : (Int32.ofNat n).toInt = n := Int32.toInt_ofNat_of_lt hn
  have hpos : ¬ Int32.ofNat n < 0 := by
    rw [Int32.lt_iff_toInt_lt, hint]
    exact Int.not_lt.mpr (Int.natCast_nonneg n)
  refine Takes.last (takes_int32 (Int32.ofNat n)) ?_
  rw [if_neg hpos, hint]
  exact Takes.pure n

/-- A number that is read is below 2³¹. -/
theorem yields_natural (refuse : Int32 → Fault) : Yields (natural refuse) (· < 2 ^ 31) := by
  refine Yields.after fun n => Yields.guard fun hn => Yields.pure ?_
  have hlt := n.toInt_lt
  have hpos : 0 ≤ n.toInt := Int.not_lt.mp fun h => hn (Int32.lt_iff_toInt_lt.mpr h)
  omega

/-- A truth value is written as one byte. -/
theorem takes_bool (b : Bool) : Takes bool [Save.boolByte b] b := by
  refine Takes.last (takes_byte _) ?_
  cases b <;> exact Takes.pure _

/-! ## Strings -/

/-- A string without a zero byte comes back; an empty one as none. -/
theorem takes_string {text : Bytes} (htext : 0 ∉ text) :
    Takes string? (Save.stringBytes text) (if text.isEmpty then none else some text) := by
  have hall : ∀ b ∈ text, (b != 0) = true := fun b hb =>
    bne_iff_ne.mpr fun h => htext (h ▸ hb)
  intro rest offset
  have htake : (Save.stringBytes text ++ rest).takeWhile (· != 0) = text := by
    rw [Save.stringBytes, List.append_assoc, List.takeWhile_append_of_pos hall]
    simp
  have hdrop : (Save.stringBytes text ++ rest).dropWhile (· != 0) = 0 :: rest := by
    rw [Save.stringBytes, List.append_assoc, List.dropWhile_append_of_pos hall]
    simp
  simp only [string?, htake, hdrop]
  rw [Save.stringBytes, List.length_append, List.length_singleton, Nat.add_assoc]

/-- A string that is read has bytes, and none of them is zero. -/
theorem yields_string :
    Yields string? fun text? => ∀ text ∈ text?, text ≠ [] ∧ 0 ∉ text := by
  intro feed text? next h
  simp only [string?] at h
  split at h
  · cases h
  · cases h
    rintro text htext
    split at htext
    · cases htext
    · rename_i hne
      cases htext
      refine ⟨fun h => hne (by rw [h]; rfl), fun hmem => ?_⟩
      have hall := List.all_takeWhile (p := (· != (0 : UInt8))) (l := feed.rest)
      exact absurd (List.all_eq_true.mp hall 0 hmem) (by decide)

/-! ## Repetition and absence -/

private theorem manyAfter_succ (item : Decoder α) (n : Nat) (found : List α) :
    manyAfter item (n + 1) found = item >>= fun a => manyAfter item n (a :: found) := by
  funext feed
  simp only [manyAfter, Bind.bind, StateT.bind]
  cases item feed <;> rfl

/-- Items that are each taken are taken together, after those found before. -/
theorem takes_manyAfter {item : Decoder α} {write : α → Bytes} {items : List α}
    (hitem : ∀ a ∈ items, Takes item (write a) a) (found : List α) :
    Takes (manyAfter item items.length found) (items.flatMap write) (found.reverse ++ items) := by
  induction items generalizing found with
  | nil =>
    rw [List.append_nil]
    exact Takes.pure _
  | cons a items ih =>
    have htail := ih (fun b hb => hitem b (List.mem_cons_of_mem a hb)) (a :: found)
    rw [List.reverse_cons, List.append_assoc] at htail
    rw [List.flatMap_cons, List.length_cons, manyAfter_succ]
    exact Takes.bind (hitem a List.mem_cons_self) htail

/-- Items that are each taken are taken together. -/
theorem takes_many {item : Decoder α} {write : α → Bytes} {items : List α}
    (hitem : ∀ a ∈ items, Takes item (write a) a) :
    Takes (many item items.length) (items.flatMap write) items :=
  takes_manyAfter hitem []

/-- As many items are read as were asked for, after those found before. -/
theorem yields_manyAfter {item : Decoder α} {P : α → Prop} (hitem : Yields item P) (n : Nat)
    {found : List α} (hfound : ∀ a ∈ found, P a) :
    Yields (manyAfter item n found) fun items =>
      items.length = found.length + n ∧ ∀ a ∈ items, P a := by
  induction n generalizing found with
  | zero =>
    refine Yields.pure ⟨List.length_reverse, fun a ha => ?_⟩
    exact hfound a (List.mem_reverse.mp ha)
  | succ n ih =>
    rw [manyAfter_succ]
    refine Yields.bind hitem fun a ha => ?_
    have htail := ih (List.forall_mem_cons.mpr ⟨ha, hfound⟩)
    rwa [List.length_cons, Nat.add_assoc, Nat.add_comm 1] at htail

/-- As many items are read as were asked for. -/
theorem yields_many {item : Decoder α} {P : α → Prop} (hitem : Yields item P) (n : Nat) :
    Yields (many item n) fun items => items.length = n ∧ ∀ a ∈ items, P a := by
  have h := yields_manyAfter hitem n fun a (ha : a ∈ []) => absurd ha List.not_mem_nil
  rwa [List.length_nil, Nat.zero_add] at h

/-- Something that may be absent comes back. -/
theorem takes_option {item : Decoder α} {write : α → Bytes} {a? : Option α}
    (hitem : ∀ a ∈ a?, Takes item (write a) a) :
    Takes (option item) (Save.optionBytes write a?) a? := by
  cases a? with
  | none => exact Takes.last (takes_byte 0) (Takes.pure none)
  | some a =>
    exact Takes.bind (takes_byte 1) (Takes.last (hitem a rfl) (Takes.pure (some a)))

/-- An optional item that is there is good if all items are. -/
theorem yields_option {item : Decoder α} {P : α → Prop} (hitem : Yields item P) :
    Yields (option item) fun a? => ∀ a ∈ a?, P a := by
  refine Yields.after fun tag => ?_
  split
  · exact Yields.pure fun _ h => absurd h (Option.not_mem_none _)
  · refine Yields.bind hitem fun a ha => Yields.pure ?_
    rintro _ ⟨⟩
    exact ha

end NovelScript.Decoder
