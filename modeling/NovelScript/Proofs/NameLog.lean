import Mathlib.Data.List.Nodup
import Mathlib.Data.List.TakeWhile
import NovelScript.NameLog
import NovelScript.Proofs.Decimal
import NovelScript.Proofs.Text.Absent

/-!
# Stored logs of names

A stored name stands in quotes with its bytes masked, and one byte is masked to a quote. A log comes
back from what was stored exactly if none of its names has that byte: without it every entry ends at
its own quote, and whatever is read from a stored log does not have it.
-/

namespace NovelScript.NameLog

variable {log : NameLog} {name : String}

/-! ## Names that can be stored -/

/-- The byte that is stored as a quote. -/
def hiddenQuote : UInt8 :=
  Byte.quote ^^^ mask

/-- No byte of the name is stored as a quote. -/
def Storable (name : String) : Prop :=
  hiddenQuote ∉ Bytes.ofText name

instance (name : String) : Decidable (Storable name) :=
  inferInstanceAs (Decidable (¬ _))

private theorem mask_mask (b : UInt8) : b ^^^ mask ^^^ mask = b := by
  rw [UInt8.xor_assoc, UInt8.xor_self, UInt8.xor_zero]

/-- A quote is hidden as the byte that is the continuation 0x26 of UTF-8. -/
theorem hiddenQuote_eq : hiddenQuote = Text.Utf8.continuation 0x26 := by
  decide

/-- A quote among masked bytes hides in the bytes. -/
theorem quote_mem_map_mask {bytes : Bytes} :
    Byte.quote ∈ bytes.map (· ^^^ mask) ↔ hiddenQuote ∈ bytes := by
  rw [List.mem_map]
  constructor
  · rintro ⟨b, hb, hquote⟩
    rwa [hiddenQuote, ← hquote, mask_mask]
  · intro h
    exact ⟨hiddenQuote, h, mask_mask _⟩

private theorem storable_toLower : Storable name.toLower ↔ Storable name := by
  simp only [Storable, hiddenQuote_eq,
    Text.Utf8.continuation_mem_ofText_toLower (show 0x26 < 64 by omega)]

/-- The name that is read from masked bytes. -/
def ofMasked (masked : Bytes) : String :=
  String.ofList (Text.Utf8.decode (masked.map (· ^^^ mask)))

/-- What is read from between two quotes can be stored, however malformed it is. -/
theorem storable_ofMasked {masked : Bytes} (h : Byte.quote ∉ masked) :
    Storable (ofMasked masked) := by
  have hbytes : hiddenQuote ∉ masked.map (· ^^^ mask) := by
    rw [← quote_mem_map_mask, List.map_map]
    have hback : (fun b => b ^^^ mask) ∘ (fun b => b ^^^ mask) = id := funext mask_mask
    rwa [hback, List.map_id]
  rw [hiddenQuote_eq] at hbytes
  rw [Storable, hiddenQuote_eq]
  exact Text.Utf8.continuation_notMem_ofText_decode (by omega) (by decide) hbytes

private theorem ofMasked_map_mask (name : String) :
    ofMasked ((Bytes.ofText name).map (· ^^^ mask)) = name := by
  have hback : (fun b => b ^^^ mask) ∘ (fun b => b ^^^ mask) = id := funext mask_mask
  rw [ofMasked, List.map_map, hback, List.map_id, Text.Utf8.decode_ofText, String.ofList_toList]

/-! ## Logs that can arise -/

/-- The names are in lower case, and each is there once. -/
structure Tidy (log : NameLog) : Prop where
  /-- Every name is in lower case. -/
  lower : ∀ name ∈ log.names, name.toLower = name
  /-- No name is there twice. -/
  nodup : log.names.Nodup

/-- A name in lower case is added, and the others stay. -/
theorem mem_insert {other : String} :
    other ∈ (log.insert name).names ↔ other ∈ log.names ∨ other = name.toLower := by
  rw [insert]
  split
  · next hmem =>
    constructor
    · exact .inl
    · rintro (h | rfl)
      · exact h
      · exact hmem
  · simp

private theorem Tidy.insert (h : log.Tidy) (name : String) : (log.insert name).Tidy := by
  rw [NameLog.insert]
  split
  · exact h
  · next hnew =>
    constructor
    · intro other hother
      rcases List.mem_append.mp hother with hother | hother
      · exact h.lower other hother
      · rw [List.mem_singleton.mp hother, Text.Utf8.toLower_toLower_text]
    · rw [List.nodup_append]
      refine ⟨h.nodup, List.nodup_singleton _, ?_⟩
      intro other hother other' hother' heq
      rw [List.mem_singleton] at hother'
      exact hnew (hother' ▸ heq ▸ hother)

/-- A log in order stays so when a name is recorded. -/
theorem Tidy.record (h : log.Tidy) (name : String) : (log.record name).Tidy := by
  rw [NameLog.record]
  split
  · exact h.insert name
  · exact h

private theorem storable_insert (h : ∀ other ∈ log.names, Storable other) (hname : Storable name) :
    ∀ other ∈ (log.insert name).names, Storable other := by
  intro other hother
  rcases mem_insert.mp hother with hother | rfl
  · exact h other hother
  · exact storable_toLower.mpr hname

/-- Names that can be stored stay so when such a name is recorded. -/
theorem storable_record (h : ∀ other ∈ log.names, Storable other) (hname : Storable name) :
    ∀ other ∈ (log.record name).names, Storable other := by
  rw [record]
  split
  · exact storable_insert h hname
  · exact h

/-- Reading a stored log only adds names that stood between two quotes, also if it fails. -/
theorem mergeEntries_induction {P : NameLog → Prop} (hlog : P log)
    (hinsert : ∀ log masked, P log → Byte.quote ∉ masked → P (log.insert (ofMasked masked)))
    (count entry : Nat) (bytes : Bytes) : P (mergeEntries count entry bytes log).2 := by
  induction count generalizing entry bytes log with
  | zero => exact hlog
  | succ count ih =>
    cases bytes with
    | nil => exact hlog
    | cons b rest =>
      rw [mergeEntries]
      split
      · exact hlog
      · dsimp only
        split
        · exact hlog
        · refine ih (hinsert log _ hlog fun hquote => ?_) _ _
          simpa using List.mem_takeWhile_imp hquote

private theorem merge_induction {P : NameLog → Prop} (hlog : P log)
    (hinsert : ∀ log masked, P log → Byte.quote ∉ masked → P (log.insert (ofMasked masked)))
    (bytes : Bytes) : P (log.merge bytes).2 := by
  rw [merge]
  split
  · exact hlog
  · dsimp only
    split
    · exact hlog
    · exact mergeEntries_induction hlog hinsert _ _ _

/-- A log in order stays so when stored names are merged into it. -/
theorem Tidy.merge (h : log.Tidy) (bytes : Bytes) : (log.merge bytes).2.Tidy :=
  merge_induction h (fun _ _ htidy _ => htidy.insert _) bytes

/-- Reading a stored log adds only names that can be stored again. -/
theorem storable_merge (h : ∀ name ∈ log.names, Storable name) (bytes : Bytes) :
    ∀ name ∈ (log.merge bytes).2.names, Storable name := by
  refine merge_induction (P := fun log => ∀ name ∈ log.names, Storable name) h ?_ bytes
  intro log masked hlog hquote
  exact storable_insert hlog (storable_ofMasked hquote)

/-! ## Reading what was stored -/

/-- A storable name ends at its own quote. -/
theorem mergeEntries_entryBytes (h : Storable name) (count entry : Nat) (rest : Bytes)
    (log : NameLog) :
    mergeEntries (count + 1) entry (entryBytes name ++ rest) log =
      mergeEntries count (entry + 1) rest (log.insert name) := by
  let masked := (Bytes.ofText name).map (· ^^^ mask)
  have hplain : ∀ b ∈ masked, (b != Byte.quote) = true := by
    intro b hb
    have hquote : Byte.quote ∉ masked := quote_mem_map_mask.not.mpr h
    simpa using fun heq : b = Byte.quote => hquote (heq ▸ hb)
  have htake : (masked ++ Byte.quote :: rest).takeWhile (· != Byte.quote) = masked := by
    rw [List.takeWhile_append_of_pos hplain]
    simp
  have hdrop : (masked ++ Byte.quote :: rest).dropWhile (· != Byte.quote) = Byte.quote :: rest := by
    rw [List.dropWhile_append_of_pos hplain]
    simp
  have hname : String.ofList (Text.Utf8.decode (masked.map (· ^^^ mask))) = name :=
    ofMasked_map_mask name
  have hbytes : entryBytes name ++ rest = Byte.quote :: (masked ++ Byte.quote :: rest) := by
    simp [entryBytes, masked]
  rw [hbytes, mergeEntries, if_neg (by simp)]
  dsimp only
  rw [hdrop, htake, hname]

private theorem mergeEntries_flatMap {names : List String} (h : ∀ name ∈ names, Storable name)
    (entry : Nat) (log : NameLog) :
    mergeEntries names.length entry (names.flatMap entryBytes) log =
      (.ok (), names.foldl insert log) := by
  induction names generalizing entry log with
  | nil => rfl
  | cons name names ih =>
    obtain ⟨hname, hnames⟩ := List.forall_mem_cons.mp h
    rw [List.length_cons, List.flatMap_cons, mergeEntries_entryBytes hname, ih hnames,
      List.foldl_cons]

/-- Names in lower case that are not there yet are added at the end. -/
theorem foldl_insert {names : List String} (hlower : ∀ name ∈ names, name.toLower = name)
    (hnodup : (log.names ++ names).Nodup) :
    names.foldl insert log = { log with names := log.names ++ names } := by
  induction names generalizing log with
  | nil => simp
  | cons name names ih =>
    obtain ⟨hname, hnames⟩ := List.forall_mem_cons.mp hlower
    have hnew : name ∉ log.names := by
      intro hmem
      exact (List.nodup_append.mp hnodup).2.2 name hmem name List.mem_cons_self rfl
    have hinsert : log.insert name = { log with names := log.names ++ [name] } := by
      rw [insert, hname, if_neg hnew]
    rw [List.foldl_cons, hinsert, ih hnames (by simpa using hnodup)]
    simp

/-- The number of names is read back, and then the entries are. -/
theorem merge_toBytes (other : NameLog) (hcount : log.names.length < UInt64.size) :
    other.merge log.toBytes =
      mergeEntries log.names.length 0 (log.names.flatMap entryBytes) other := by
  let count := (Decimal.digits log.names.length).map Decimal.digitByte
  have hplain : ∀ b ∈ count, (b != Byte.newline) = true := by
    intro b hb
    obtain ⟨d, hd, rfl⟩ := List.mem_map.mp hb
    simpa using (Decimal.digitByte_facts d (Decimal.digits_lt _ d hd)).2.1
  have hdrop : log.toBytes.dropWhile (· != Byte.newline) =
      Byte.newline :: log.names.flatMap entryBytes := by
    rw [toBytes, List.dropWhile_append_of_pos hplain]
    simp
  have htake : log.toBytes.takeWhile (· != Byte.newline) = count := by
    rw [toBytes, List.takeWhile_append_of_pos hplain]
    simp [count]
  rw [merge, hdrop]
  dsimp only
  rw [htake, Decimal.size?_trim_decode_digits hcount]

/-- **A log comes back exactly if none of its names has the byte that is stored as a quote.** -/
theorem merge_toBytes_iff (htidy : log.Tidy) (hcount : log.names.length < UInt64.size) :
    ({} : NameLog).merge log.toBytes = (.ok (), { names := log.names }) ↔
      ∀ name ∈ log.names, Storable name := by
  constructor
  · intro hback
    have hempty : ∀ name ∈ ({} : NameLog).names, Storable name := by simp
    have hstorable := storable_merge hempty log.toBytes
    rwa [hback] at hstorable
  · intro hstorable
    rw [merge_toBytes {} hcount, mergeEntries_flatMap hstorable,
      foldl_insert htidy.lower (by simpa using htidy.nodup)]
    simp

/-! ## Recording -/

/-- The log after names were recorded in it, one after another. -/
def recordAll (log : NameLog) (names : List String) : NameLog :=
  names.foldl record log

private theorem Tidy.recordAll (h : log.Tidy) (names : List String) :
    (log.recordAll names).Tidy := by
  induction names generalizing log with
  | nil => exact h
  | cons name names ih => exact ih (h.record name)

/-- A log that is switched on has the names that it had and those that are recorded in it. -/
theorem mem_recordAll (h : log.enabled = true) {names : List String} {other : String} :
    other ∈ (log.recordAll names).names ↔
      other ∈ log.names ∨ ∃ name ∈ names, other = name.toLower := by
  induction names generalizing log with
  | nil => simp [recordAll]
  | cons name names ih =>
    have hrecord : log.record name = log.insert name := if_pos h
    have henabled : (log.insert name).enabled = true := by
      rw [insert]
      split
      · exact h
      · exact h
    have hrest := ih henabled
    rw [recordAll, List.foldl_cons, hrecord]
    rw [recordAll] at hrest
    rw [hrest, mem_insert]
    simp [or_assoc]

/-- The log that is left when recording is switched on and names are recorded. -/
def recorded (names : List String) : NameLog :=
  ({ enabled := true } : NameLog).recordAll names

/-- The log of some names in a row is in order. -/
theorem tidy_recorded (names : List String) : (recorded names).Tidy :=
  Tidy.recordAll ⟨by simp, by simp⟩ names

/-- The names in the log can be stored exactly if those that were recorded can. -/
theorem storable_recorded_iff (names : List String) :
    (∀ name ∈ (recorded names).names, Storable name) ↔ ∀ name ∈ names, Storable name := by
  have hmem : ∀ other, other ∈ (recorded names).names ↔ ∃ name ∈ names, other = name.toLower := by
    intro other
    rw [recorded, mem_recordAll rfl]
    simp
  constructor
  · intro hall name hname
    exact storable_toLower.mp (hall _ ((hmem _).mpr ⟨name, hname, rfl⟩))
  · intro hall other hother
    obtain ⟨name, hname, rfl⟩ := (hmem other).mp hother
    exact storable_toLower.mpr (hall name hname)

end NovelScript.NameLog
