import Mathlib.Order.Basic
import NovelScript.Table

/-!
# Laws of tables

The keys of a table increase as long as entries are put in by `insert`. Then a look-up sees through
filtering and through changes of the values, putting all entries of a table into an empty one
builds the table again, and a table is determined by what is looked up in it.
-/

namespace NovelScript.Table

variable {κ α β : Type} [DecidableEq κ]

/-- Changing the values changes what is looked up. -/
theorem get?_map (table : Table κ α) (f : κ → α → β) (key : κ) :
    get? (table.map fun (k, v) => (k, f k v)) key = (table.get? key).map (f key) := by
  induction table with
  | nil => rfl
  | cons entry rest ih =>
    obtain ⟨k, v⟩ := entry
    rw [List.map_cons, get?_cons, get?_cons, ih]
    by_cases h : key = k
    · subst h
      rw [if_pos rfl, if_pos rfl]
      rfl
    · rw [if_neg h, if_neg h]

/-- What is looked up is an entry. -/
theorem mem_of_get? {table : Table κ α} {key : κ} {value : α} (h : table.get? key = some value) :
    (key, value) ∈ table := by
  induction table with
  | nil => cases h
  | cons entry rest ih =>
    obtain ⟨k, v⟩ := entry
    rw [get?_cons] at h
    split at h
    · next hk =>
      cases h
      rw [hk]
      exact List.mem_cons_self
    · exact List.mem_cons_of_mem _ (ih h)

/-- A key that no entry has is not found. -/
theorem get?_eq_none {table : Table κ α} {key : κ} (h : ∀ entry ∈ table, entry.1 ≠ key) :
    table.get? key = none := by
  cases hget : table.get? key with
  | none => rfl
  | some value => exact absurd rfl (h _ (mem_of_get? hget))

/-- The last value that a list of entries has for a key. -/
def last? (entries : List (κ × α)) (key : κ) : Option α :=
  get? entries.reverse key

/-- The last value of a key in a list, by its first entry. -/
theorem last?_cons (k : κ) (v : α) (rest : List (κ × α)) (key : κ) :
    last? ((k, v) :: rest) key = (last? rest key).or (if key = k then some v else none) := by
  rw [last?, last?, List.reverse_cons, get?, List.lookup_append]
  exact congrArg _ (get?_cons k v [] key)

variable [LT κ]

/-- The keys increase. -/
def Sorted (table : Table κ α) : Prop :=
  table.Pairwise fun a b => a.1 < b.1

section Filter

variable [Std.Irrefl (α := κ) (· < ·)]

/-- Every entry is found by its key. -/
theorem Sorted.get?_of_mem {table : Table κ α} (h : table.Sorted) {entry : κ × α}
    (hentry : entry ∈ table) : table.get? entry.1 = some entry.2 := by
  induction table with
  | nil => cases hentry
  | cons first rest ih =>
    obtain ⟨hfirst, hrest⟩ := List.pairwise_cons.mp h
    rcases List.mem_cons.mp hentry with rfl | hmem
    · exact (get?_cons _ _ _ _).trans (if_pos rfl)
    · have hne : entry.1 ≠ first.1 := fun heq =>
        absurd (hfirst entry hmem) (heq ▸ Std.lt_irrefl)
      exact (get?_cons _ _ _ _).trans ((if_neg hne).trans (ih hrest hmem))

/-- In a table each key has one value, which is also the last one. -/
theorem Sorted.last?_eq {table : Table κ α} (h : table.Sorted) (key : κ) :
    last? table key = table.get? key := by
  induction table with
  | nil => rfl
  | cons first rest ih =>
    obtain ⟨k, v⟩ := first
    obtain ⟨hfirst, hrest⟩ := List.pairwise_cons.mp h
    rw [last?_cons, ih hrest, get?_cons]
    by_cases hk : key = k
    · subst hk
      have hgone : get? rest key = none := get?_eq_none fun entry hentry heq =>
        absurd (hfirst entry hentry) (heq ▸ Std.lt_irrefl)
      rw [hgone, Option.none_or]
    · rw [if_neg hk, if_neg hk, Option.or_none]

/-- A look-up sees through filtering. -/
theorem Sorted.get?_filter {table : Table κ α} (h : table.Sorted) (p : κ × α → Bool) (key : κ) :
    get? (table.filter p) key = (table.get? key).filter fun value => p (key, value) := by
  induction table with
  | nil => rfl
  | cons first rest ih =>
    obtain ⟨k, v⟩ := first
    obtain ⟨hfirst, hrest⟩ := List.pairwise_cons.mp h
    by_cases hk : key = k
    · subst hk
      have hgone : get? (rest.filter p) key = none := get?_eq_none fun entry hentry heq =>
        absurd (hfirst entry (List.mem_filter.mp hentry).1) (heq ▸ Std.lt_irrefl)
      rw [get?_cons, if_pos rfl, List.filter_cons, Option.filter_some]
      split
      · rw [get?_cons, if_pos rfl]
      · exact hgone
    · rw [get?_cons, if_neg hk, ← ih hrest, List.filter_cons]
      split
      · rw [get?_cons, if_neg hk]
      · rfl

end Filter

section Extensionality

variable [LE κ] [Std.IsLinearOrder κ] [Std.LawfulOrderLT κ]

/-- Tables in which the same is looked up are equal. -/
theorem Sorted.eq_of_get? {table other : Table κ α} (h : table.Sorted) (hother : other.Sorted)
    (hget : ∀ key, table.get? key = other.get? key) : table = other := by
  have hmem : ∀ entry, entry ∈ table ↔ entry ∈ other := by
    intro entry
    constructor
    · intro hentry
      exact mem_of_get? ((hget entry.1).symm.trans (h.get?_of_mem hentry))
    · intro hentry
      exact mem_of_get? ((hget entry.1).trans (hother.get?_of_mem hentry))
  have hnodup : ∀ {table : Table κ α}, table.Sorted → table.Nodup := by
    intro table hsorted
    refine List.Pairwise.imp (fun {first second} hlt (heq : first = second) => ?_) hsorted
    rw [heq] at hlt
    exact Std.lt_irrefl hlt
  refine List.Perm.eq_of_pairwise (fun first second _ _ hlt hgt => ?_) h hother
    ((List.perm_ext_iff_of_nodup (hnodup h) (hnodup hother)).mpr hmem)
  exact absurd (Std.lt_trans hlt hgt) Std.lt_irrefl

end Extensionality

variable [∀ a b : κ, Decidable (a < b)]

/-- Of entries that are put in one after another, the last one for a key is found. -/
theorem get?_foldl_insert (entries : List (κ × α)) (table : Table κ α) (key : κ) :
    get? (entries.foldl (fun built (key, value) => insert key value built) table) key =
      (last? entries key).or (table.get? key) := by
  induction entries generalizing table with
  | nil => rfl
  | cons first rest ih =>
    obtain ⟨k, v⟩ := first
    show get? (rest.foldl _ (insert k v table)) key = _
    rw [ih, get?_insert, last?_cons, Option.or_assoc]
    split <;> rfl

/-- The entries after an insertion are the new one and old ones. -/
theorem mem_insert {table : Table κ α} {key : κ} {value : α} {entry : κ × α}
    (h : entry ∈ insert key value table) : entry = (key, value) ∨ entry ∈ table := by
  induction table with
  | nil => exact .inl (List.mem_singleton.mp h)
  | cons first rest ih =>
    obtain ⟨k, v⟩ := first
    unfold insert at h
    split at h
    · exact List.mem_cons.mp h
    · split at h
      · exact (List.mem_cons.mp h).imp_right (List.mem_cons_of_mem _)
      · rcases List.mem_cons.mp h with rfl | h
        · exact .inr List.mem_cons_self
        · exact (ih h).imp_right (List.mem_cons_of_mem _)

variable [LE κ] [Std.IsLinearOrder κ] [Std.LawfulOrderLT κ]

/-- Putting an entry in keeps the order. -/
theorem Sorted.insert {table : Table κ α} (h : table.Sorted) (key : κ) (value : α) :
    (Table.insert key value table).Sorted := by
  induction table with
  | nil => exact List.pairwise_singleton _ _
  | cons first rest ih =>
    obtain ⟨k, v⟩ := first
    obtain ⟨hfirst, hrest⟩ := List.pairwise_cons.mp h
    unfold Table.insert
    split
    · next hlt =>
      refine List.pairwise_cons.mpr ⟨fun entry hentry => ?_, h⟩
      rcases List.mem_cons.mp hentry with rfl | hentry
      · exact hlt
      · exact Std.lt_trans hlt (hfirst entry hentry)
    · next hnot =>
      split
      · next heq => exact List.pairwise_cons.mpr ⟨heq ▸ hfirst, hrest⟩
      · next hne =>
        refine List.pairwise_cons.mpr ⟨fun entry hentry => ?_, ih hrest⟩
        rcases mem_insert hentry with rfl | hentry
        · exact Std.lt_of_le_of_ne (Std.not_lt.mp hnot) (Ne.symm hne)
        · exact hfirst entry hentry

/-- A key beyond all others goes to the end. -/
theorem insert_eq_append {table : Table κ α} {key : κ} (h : ∀ entry ∈ table, entry.1 < key)
    (value : α) : insert key value table = table ++ [(key, value)] := by
  induction table with
  | nil => rfl
  | cons first rest ih =>
    obtain ⟨k, v⟩ := first
    have hk : k < key := h (k, v) List.mem_cons_self
    unfold insert
    rw [if_neg (Std.not_lt.mpr (Std.le_of_lt hk)), if_neg (fun heq => Std.lt_irrefl (heq ▸ hk)),
      ih fun entry hentry => h entry (List.mem_cons_of_mem _ hentry)]
    rfl

/-- Putting in the entries of a sorted table one after another builds the table. -/
theorem foldl_insert {front table : Table κ α} (h : Sorted (front ++ table)) :
    table.foldl (fun built (key, value) => insert key value built) front = front ++ table := by
  induction table generalizing front with
  | nil => rw [List.append_nil]; rfl
  | cons first rest ih =>
    obtain ⟨k, v⟩ := first
    have hbefore : ∀ entry ∈ front, entry.1 < k := fun entry hentry =>
      (List.pairwise_append.mp h).2.2 entry hentry (k, v) List.mem_cons_self
    show rest.foldl _ (insert k v front) = _
    rw [insert_eq_append hbefore, ih]
    · rw [List.append_assoc]
      rfl
    · rwa [List.append_assoc]

end NovelScript.Table
