/-!
# Tables

A table holds a value for each of its keys, in the order of the keys, which is the order of their
bytes. That the keys ascend is part of the type, so a table has no key twice and equal contents make
equal tables.
-/

namespace RelayFleet

/-- Entries whose keys ascend. -/
def Ascending {α : Type} (entries : List (String × α)) : Prop :=
  entries.Pairwise fun a b => a.1 < b.1

/-- A table. -/
structure Table (α : Type) where
  entries : List (String × α)
  ascending : Ascending entries := by exact List.Pairwise.nil

namespace Table

variable {α : Type}

/-- The table without entries. -/
def empty : Table α where
  entries := []

instance : Inhabited (Table α) := ⟨empty⟩

/-- Puts an entry in its place among ascending ones, instead of the one with its key. -/
def insertEntry (key : String) (a : α) : List (String × α) → List (String × α)
  | [] => [(key, a)]
  | (k, b) :: rest =>
    if key < k then (key, a) :: (k, b) :: rest
    else if key = k then (key, a) :: rest
    else (k, b) :: insertEntry key a rest

/-- The keys after an insertion are the key that was inserted and the ones before. -/
theorem mem_insertEntry {key : String} {a : α} {e : String × α} {entries : List (String × α)}
    (h : e ∈ insertEntry key a entries) : e = (key, a) ∨ e ∈ entries := by
  induction entries with
  | nil => simpa [insertEntry] using h
  | cons x rest ih =>
    obtain ⟨k, b⟩ := x
    simp only [insertEntry] at h
    split at h
    · simpa using h
    · split at h
      · rcases List.mem_cons.1 h with h | h
        · exact .inl h
        · exact .inr (List.mem_cons_of_mem _ h)
      · rcases List.mem_cons.1 h with h | h
        · exact .inr (h ▸ List.mem_cons_self)
        · rcases ih h with h | h
          · exact .inl h
          · exact .inr (List.mem_cons_of_mem _ h)

/-- Insertion keeps the keys ascending. -/
theorem ascending_insertEntry (key : String) (a : α) {entries : List (String × α)}
    (h : Ascending entries) : Ascending (insertEntry key a entries) := by
  induction entries with
  | nil => simp [Table.insertEntry, Ascending]
  | cons x rest ih =>
    obtain ⟨k, b⟩ := x
    obtain ⟨hk, hrest⟩ := List.pairwise_cons.1 h
    simp only [Table.insertEntry]
    split
    · next hlt =>
      refine List.pairwise_cons.2 ⟨fun e he => ?_, h⟩
      rcases List.mem_cons.1 he with rfl | he
      · exact hlt
      · exact String.lt_trans hlt (hk e he)
    · split
      · next heq =>
        subst heq
        exact List.pairwise_cons.2 ⟨hk, hrest⟩
      · next hlt hne =>
        refine List.pairwise_cons.2 ⟨fun e he => ?_, ih hrest⟩
        rcases mem_insertEntry he with rfl | he
        · exact Decidable.byContradiction fun hn =>
            hne (String.le_antisymm (String.not_lt.1 hn) (String.not_lt.1 hlt))
        · exact hk e he

/-- The table with a value under a key, instead of what was there. -/
def insert (t : Table α) (key : String) (a : α) : Table α where
  entries := insertEntry key a t.entries
  ascending := ascending_insertEntry key a t.ascending

/-- The table without a key. -/
def erase (t : Table α) (key : String) : Table α where
  entries := t.entries.filter (·.1 ≠ key)
  ascending := t.ascending.filter _

/-- The value under a key. -/
def get? (t : Table α) (key : String) : Option α := t.entries.lookup key

/-- Whether there is a value under a key. -/
def contains (t : Table α) (key : String) : Bool := (t.get? key).isSome

/-- The values, in the order of their keys. -/
def values (t : Table α) : List α := t.entries.map (·.2)

/-- What stands under a key in a list of entries: its first entry decides or the rest does. -/
theorem lookup_entry_cons (k key : String) (a : α) (rest : List (String × α)) :
    ((key, a) :: rest).lookup k = if k = key then some a else rest.lookup k := by
  by_cases h : k = key
  · simp [h]
  · simp [List.lookup_cons, beq_eq_false_iff_ne.2 h, h]

/-- What stands under a key after an insertion among entries. -/
theorem lookup_insertEntry (key k : String) (a : α) (entries : List (String × α)) :
    (insertEntry key a entries).lookup k = if k = key then some a else entries.lookup k := by
  induction entries with
  | nil => rw [insertEntry, lookup_entry_cons]
  | cons x rest ih =>
    obtain ⟨k', b⟩ := x
    simp only [insertEntry]
    split
    · rw [lookup_entry_cons]
    · split
      · next heq =>
        subst heq
        by_cases h : k = key <;> simp [lookup_entry_cons, h]
      · next hne =>
        by_cases h : k = k'
        · subst h
          simp [Ne.symm hne]
        · simp [lookup_entry_cons, ih, h]

/-- An insertion changes what stands under its key and nothing else. -/
theorem get?_insert (t : Table α) (key k : String) (a : α) :
    (t.insert key a).get? k = if k = key then some a else t.get? k :=
  lookup_insertEntry key k a t.entries

/-- What stands under a key after the entries of another one were left out. -/
theorem lookup_filter_ne (key k : String) (entries : List (String × α)) :
    (entries.filter (·.1 ≠ key)).lookup k = if k = key then none else entries.lookup k := by
  induction entries with
  | nil => simp
  | cons x rest ih =>
    obtain ⟨k', b⟩ := x
    by_cases h : k' = key
    · subst h
      rw [List.filter_cons_of_neg (by simp), ih, lookup_entry_cons]
      by_cases hk : k = k' <;> simp [hk]
    · rw [List.filter_cons_of_pos (by simpa using h), lookup_entry_cons, lookup_entry_cons, ih]
      by_cases hk : k = k'
      · subst hk
        simp [h]
      · simp [hk]

/-- Erasing a key leaves nothing under it and everything else. -/
theorem get?_erase (t : Table α) (key k : String) :
    (t.erase key).get? k = if k = key then none else t.get? k :=
  lookup_filter_ne key k t.entries

end Table

end RelayFleet
