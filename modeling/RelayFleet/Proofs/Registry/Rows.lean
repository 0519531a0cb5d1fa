import Mathlib.Algebra.BigOperators.Group.List.Basic
import RelayFleet.Proofs.Registry.Codec
import RelayFleet.Registry.Transaction

/-!
# The relays of a registry

A registry keeps its relays as text. `Registry.relay?` is what stands under a key once it is
decoded, and `Registry.rows` is all of it in order; `Registry.Sound` says that every row decodes and
stands under the id of its relay, as every operation leaves it. In a sound registry each operation
on relays is an operation on `relay?`, and a sum over all relays (`Registry.total`) changes by what
the written row adds to it.
-/

namespace RelayFleet

/-! ## Sums over a table -/

namespace Table

variable {α : Type}

/-- The sum of a weight over all values. -/
def sum (t : Table α) (f : α → Nat) : Nat := (t.values.map f).sum

/-- No entry among those behind a greater key stands under a key. -/
theorem lookup_eq_none_of_lt {key : String} {entries : List (String × α)}
    (h : ∀ e ∈ entries, key < e.1) : entries.lookup key = none := by
  rw [List.lookup_eq_none_iff]
  exact fun e he => by simpa using String.ne_of_lt (h e he)

/-- An inserted entry adds its weight and takes away that of the entry it replaces. -/
theorem sum_insertEntry (f : α → Nat) (key : String) (a : α) {entries : List (String × α)}
    (h : Ascending entries) :
    ((insertEntry key a entries).map (f ·.2)).sum + (entries.lookup key).elim 0 f =
      (entries.map (f ·.2)).sum + f a := by
  induction entries with
  | nil => simp [insertEntry]
  | cons x rest ih =>
    obtain ⟨k, b⟩ := x
    obtain ⟨hk, hrest⟩ := List.pairwise_cons.1 h
    simp only [insertEntry, lookup_entry_cons]
    split
    · next hlt =>
      have hne : key ≠ k := String.ne_of_lt hlt
      have hnone : rest.lookup key = none :=
        lookup_eq_none_of_lt fun e he => String.lt_trans hlt (hk e he)
      simp [hne, hnone]
      omega
    · split
      · next heq => simp [heq]; omega
      · next hne =>
        have := ih hrest
        simp at this ⊢
        omega

/-- Insertion adds the weight of the value and takes away that of the one it replaces. -/
theorem sum_insert (t : Table α) (f : α → Nat) (key : String) (a : α) :
    (t.insert key a).sum f + (t.get? key).elim 0 f = t.sum f + f a := by
  have := sum_insertEntry f key a t.ascending
  simp only [sum, values, List.map_map]
  exact this

/-- The later of two insertions under a key is the one that counts. -/
theorem insertEntry_insertEntry (key : String) (a b : α) (entries : List (String × α)) :
    insertEntry key b (insertEntry key a entries) = insertEntry key b entries := by
  induction entries with
  | nil => simp [insertEntry]
  | cons x rest ih =>
    obtain ⟨k, c⟩ := x
    simp only [insertEntry]
    split
    · simp [insertEntry]
    · split
      · simp [insertEntry]
      · next hlt hne => simp [insertEntry, hlt, hne, ih]

/-- Insertions under two keys may be made in either order. -/
theorem insertEntry_comm {key key' : String} (hne : key ≠ key') (a b : α)
    (entries : List (String × α)) :
    insertEntry key a (insertEntry key' b entries) =
      insertEntry key' b (insertEntry key a entries) := by
  induction entries with
  | nil => grind [insertEntry]
  | cons x rest ih =>
    obtain ⟨k, c⟩ := x
    grind [insertEntry]

/-- An insertion that is erased again leaves what an erasure leaves. -/
theorem filter_insertEntry (key : String) (a : α) (entries : List (String × α)) :
    (insertEntry key a entries).filter (·.1 ≠ key) = entries.filter (·.1 ≠ key) := by
  induction entries with
  | nil => simp [insertEntry]
  | cons x rest ih =>
    obtain ⟨k, b⟩ := x
    simp only [insertEntry]
    split
    · simp
    · split
      · next heq => simp [heq]
      · rw [List.filter_cons, ih, List.filter_cons]

/-- Erased entries take away their weight. -/
theorem sum_filter_ne (f : α → Nat) (key : String) {entries : List (String × α)}
    (h : Ascending entries) :
    ((entries.filter (·.1 ≠ key)).map (f ·.2)).sum + (entries.lookup key).elim 0 f =
      (entries.map (f ·.2)).sum := by
  induction entries with
  | nil => simp
  | cons x rest ih =>
    obtain ⟨k, b⟩ := x
    obtain ⟨hk, hrest⟩ := List.pairwise_cons.1 h
    have := ih hrest
    rw [lookup_entry_cons]
    by_cases heq : key = k
    · subst heq
      rw [lookup_eq_none_of_lt hk] at this
      simp at this ⊢
      omega
    · simp [heq, Ne.symm heq] at this ⊢
      omega

/-- Erasing takes away the weight of the value that stood there. -/
theorem sum_erase (t : Table α) (f : α → Nat) (key : String) :
    (t.erase key).sum f + (t.get? key).elim 0 f = t.sum f := by
  have := sum_filter_ne f key t.ascending
  simp only [sum, values, List.map_map]
  exact this

/-- What stands under a key is an entry with this key. -/
theorem lookup_eq_some_iff_mem {key : String} {a : α} {entries : List (String × α)}
    (h : Ascending entries) : entries.lookup key = some a ↔ (key, a) ∈ entries := by
  induction entries with
  | nil => simp
  | cons x rest ih =>
    obtain ⟨k, b⟩ := x
    obtain ⟨hk, hrest⟩ := List.pairwise_cons.1 h
    rw [lookup_entry_cons]
    by_cases heq : key = k
    · subst heq
      have hnot : (key, a) ∉ rest := fun hm => String.lt_irrefl key (hk _ hm)
      simp [hnot, eq_comm]
    · simp [heq, ih hrest]

/-- The values of a table are what stands under its keys. -/
theorem mem_values_iff {t : Table α} {a : α} : a ∈ t.values ↔ ∃ key, t.get? key = some a := by
  simp only [values, List.mem_map, get?]
  constructor
  · rintro ⟨⟨key, a⟩, hm, rfl⟩
    exact ⟨key, (lookup_eq_some_iff_mem t.ascending).2 hm⟩
  · rintro ⟨key, h⟩
    exact ⟨(key, a), (lookup_eq_some_iff_mem t.ascending).1 h, rfl⟩

end Table

/-! ## Rows -/

namespace Registry

variable {g : Registry} {id : RelayId} {r : Relay}

/-- The relay whose row stands under a key. -/
def relay? (g : Registry) (id : RelayId) : Option Relay :=
  (g.relays.get? id).bind (Relay.decoder.run? ·)

/-- Every relay, in the order of the keys. -/
def rows (g : Registry) : List Relay := g.relays.values.filterMap (Relay.decoder.run? ·)

/-- Every row decodes and stands under the id of its relay. -/
def Sound (g : Registry) : Prop :=
  ∀ id text, g.relays.get? id = some text →
    ∃ r, decodeRow Relay.decoder text = .ok r ∧ r.id = id

/-- Every row decodes. -/
def Readable (g : Registry) : Prop :=
  ∀ id text, g.relays.get? id = some text → ∃ r, decodeRow Relay.decoder text = .ok r

/-- The registry with a row written under a key. -/
def withRow (g : Registry) (id : RelayId) (r : Relay) : Registry :=
  { g with relays := g.relays.insert id r.encode.render }

/-- The registry without the row under a key. -/
def withoutRow (g : Registry) (id : RelayId) : Registry :=
  { g with relays := g.relays.erase id }

/-- A row that decodes is decoded the same way on its own. -/
theorem run?_of_decodeRow {α : Type} {d : Json.Decoder α} {a : α} {text : String}
    (h : decodeRow d text = .ok a) : d.run? text = some a := by
  unfold decodeRow at h
  split at h
  · next heq => cases h; exact heq
  · cases h

/-- A new fleet has no relays. -/
@[simp] theorem relay?_empty (id : RelayId) : empty.relay? id = none := rfl

/-- A registry without rows is sound. -/
theorem sound_empty : empty.Sound := fun _ _ h => nomatch h

/-- What stands under a key depends on the rows alone. -/
theorem relay?_congr {g' : Registry} (h : g'.relays = g.relays) (id : RelayId) :
    g'.relay? id = g.relay? id := by
  rw [relay?, h, relay?]

/-- The rows of a sound registry decode. -/
theorem Sound.readable (h : g.Sound) : g.Readable := by
  intro id text hid
  obtain ⟨r, hr, -⟩ := h id text hid
  exact ⟨r, hr⟩

/-- Soundness is a property of the rows alone. -/
theorem Sound.congr {g' : Registry} (hg : g.Sound) (h : g'.relays = g.relays) : g'.Sound := by
  intro id text hid
  exact hg id text (h ▸ hid)

/-- A written row is read back, and the others are as before. -/
theorem relay?_withRow (g : Registry) (id k : RelayId) (r : Relay) :
    (g.withRow id r).relay? k = if k = id then some r else g.relay? k := by
  simp only [relay?, withRow, Table.get?_insert]
  split
  · simp [run?_of_decodeRow (decodeRow_encode r)]
  · rfl

/-- A written row is read back. -/
theorem relay?_withRow_self (g : Registry) (id : RelayId) (r : Relay) :
    (g.withRow id r).relay? id = some r := by
  rw [relay?_withRow, if_pos rfl]

/-- Writing a row leaves the bindings. -/
@[simp] theorem getBinding_withRow (g : Registry) (id : RelayId) (r : Relay) (w : WorkloadId) :
    (g.withRow id r).getBinding w = g.getBinding w :=
  rfl

/-- Writing a row and the mode may be done in either order. -/
theorem putMode_withRow (g : Registry) (id : RelayId) (r : Relay) (m : ModeRecord) :
    (g.withRow id r).putMode m = (g.putMode m).withRow id r :=
  rfl

/-- The later of two rows written under a key is the one that counts. -/
theorem withRow_withRow (g : Registry) (id : RelayId) (r r' : Relay) :
    (g.withRow id r).withRow id r' = g.withRow id r' := by
  unfold withRow Table.insert
  simp only [Table.insertEntry_insertEntry]

/-- Rows under two keys may be written in either order. -/
theorem withRow_comm {id id' : RelayId} (hne : id ≠ id') (g : Registry) (r r' : Relay) :
    (g.withRow id r).withRow id' r' = (g.withRow id' r').withRow id r := by
  unfold withRow Table.insert
  simp only [Table.insertEntry_comm hne]

/-- A row that is removed may have been written over before. -/
theorem withoutRow_withRow (g : Registry) (id : RelayId) (r : Relay) :
    (g.withRow id r).withoutRow id = g.withoutRow id := by
  unfold withRow withoutRow Table.insert Table.erase
  simp only [Table.filter_insertEntry]

/-- The only row is the one that was written. -/
theorem rows_withRow_of_empty (h : g.relays = .empty) (id : RelayId) (r : Relay) :
    (g.withRow id r).rows = [r] := by
  simp only [rows, withRow, h, Table.insert, Table.empty, Table.insertEntry, Table.values]
  simp [run?_of_decodeRow (decodeRow_encode r)]

/-- A removed row is gone, and the others are as before. -/
theorem relay?_withoutRow (g : Registry) (id k : RelayId) :
    (g.withoutRow id).relay? k = if k = id then none else g.relay? k := by
  simp only [relay?, withoutRow, Table.get?_erase]
  split <;> rfl

/-- Writing a row under the id of its relay keeps a registry sound. -/
theorem Sound.withRow (h : g.Sound) (hid : r.id = id) : (g.withRow id r).Sound := by
  intro k text hk
  simp only [Registry.withRow, Table.get?_insert] at hk
  split at hk
  · next heq =>
    cases hk
    exact ⟨r, decodeRow_encode r, heq ▸ hid⟩
  · exact h k text hk

/-- A row that is written decodes. -/
theorem Readable.withRow (h : g.Readable) (id : RelayId) (r : Relay) :
    (g.withRow id r).Readable := by
  intro k text hk
  simp only [Registry.withRow, Table.get?_insert] at hk
  split at hk
  · cases hk
    exact ⟨r, decodeRow_encode r⟩
  · exact h k text hk

/-- Removing a row keeps a registry sound. -/
theorem Sound.withoutRow (h : g.Sound) : (g.withoutRow id).Sound := by
  intro k text hk
  simp only [Registry.withoutRow, Table.get?_erase] at hk
  split at hk
  · cases hk
  · exact h k text hk

/-- In a sound registry the relay under a key has this id. -/
theorem Sound.id_eq (h : g.Sound) (hr : g.relay? id = some r) : r.id = id := by
  unfold relay? at hr
  obtain ⟨text, ht, hdec⟩ := Option.bind_eq_some_iff.1 hr
  obtain ⟨r', hr', hid⟩ := h id text ht
  rw [run?_of_decodeRow hr'] at hdec
  exact Option.some.inj hdec ▸ hid

/-- Where every row decodes reading a row answers with the relay under the key. -/
theorem Readable.getRelay (h : g.Readable) (id : RelayId) : g.getRelay id = .ok (g.relay? id) := by
  unfold Registry.getRelay relay?
  split
  · next text ht =>
    obtain ⟨r, hr⟩ := h id text ht
    simp [ht, hr, run?_of_decodeRow hr]
  · next ht => simp [ht]

/-- In a sound registry reading a row answers with the relay under the key. -/
theorem Sound.getRelay (h : g.Sound) (id : RelayId) : g.getRelay id = .ok (g.relay? id) :=
  h.readable.getRelay id

/-- In a sound registry the relay under a key is changed, and the change answers with both rows. -/
theorem Sound.updateRelay_some (h : g.Sound) (hr : g.relay? id = some r) (now : Millis)
    (change : Relay → Relay) :
    g.updateRelay now id change =
      (.ok ⟨r, { change r with updatedAt := now }⟩,
        g.withRow id { change r with updatedAt := now }) := by
  simp only [Registry.updateRelay, requireRelay, h.getRelay, hr]
  rfl

/-- A row that was put down in a sound registry is changed. -/
theorem Sound.updateRelay_withRow (h : g.Sound) (hid : r.id = id) (now : Millis)
    (change : Relay → Relay) :
    (g.withRow id r).updateRelay now id change =
      (.ok ⟨r, { change r with updatedAt := now }⟩,
        g.withRow id { change r with updatedAt := now }) := by
  rw [(h.withRow hid).updateRelay_some (relay?_withRow_self ..), withRow_withRow]

/-- Where every row decodes nothing is changed under a key without a relay. -/
theorem Readable.updateRelay_none (h : g.Readable) (hr : g.relay? id = none) (now : Millis)
    (change : Relay → Relay) :
    g.updateRelay now id change = (.error (.relayNotFound id), g) := by
  simp only [Registry.updateRelay, requireRelay, h.getRelay, hr]
  rfl

/-- In a sound registry nothing is changed under a key without a relay. -/
theorem Sound.updateRelay_none (h : g.Sound) (hr : g.relay? id = none) (now : Millis)
    (change : Relay → Relay) :
    g.updateRelay now id change = (.error (.relayNotFound id), g) :=
  h.readable.updateRelay_none hr now change

/-- Where every row decodes a listing answers with the relays that satisfy its condition. -/
theorem Readable.listRelays (h : g.Readable) (keep : Relay → Bool) :
    g.listRelays keep = .ok (g.rows.filter keep) := by
  have hall : ∀ (texts : List String),
      (∀ t ∈ texts, ∃ r, decodeRow Relay.decoder t = .ok r) →
      texts.mapM (decodeRow Relay.decoder) =
        .ok (texts.filterMap (Relay.decoder.run? ·)) := by
    intro texts
    induction texts with
    | nil => exact fun _ => rfl
    | cons t ts ih =>
      intro ht
      obtain ⟨r, hr⟩ := ht t List.mem_cons_self
      rw [List.mapM_cons, ih fun t' h' => ht t' (List.mem_cons_of_mem _ h'), hr,
        List.filterMap_cons, run?_of_decodeRow hr]
      rfl
  have hdec : ∀ t ∈ g.relays.values, ∃ r, decodeRow Relay.decoder t = .ok r := by
    intro t ht
    obtain ⟨id, hid⟩ := Table.mem_values_iff.1 ht
    exact h id t hid
  rw [Registry.listRelays, hall _ hdec]
  rfl

/-- In a sound registry a listing answers with the relays that satisfy its condition. -/
theorem Sound.listRelays (h : g.Sound) (keep : Relay → Bool) :
    g.listRelays keep = .ok (g.rows.filter keep) :=
  h.readable.listRelays keep

/-- A listing where the only row is the one that was written. -/
theorem Sound.listRelays_withRow_of_empty (h : g.Sound) (hempty : g.relays = .empty)
    (hid : r.id = id) (keep : Relay → Bool) :
    (g.withRow id r).listRelays keep = .ok ([r].filter keep) := by
  rw [(h.withRow hid).listRelays, rows_withRow_of_empty hempty]

/-- In a sound registry the rows are the relays under the keys. -/
theorem Sound.mem_rows (h : g.Sound) : r ∈ g.rows ↔ g.relay? r.id = some r := by
  simp only [rows, List.mem_filterMap, Table.mem_values_iff, relay?]
  constructor
  · rintro ⟨text, ⟨id, hid⟩, hr⟩
    obtain ⟨r', hr', rfl⟩ := h id text hid
    rw [run?_of_decodeRow hr'] at hr
    cases hr
    simp [hid, run?_of_decodeRow hr']
  · intro hr
    obtain ⟨text, ht, hdec⟩ := Option.bind_eq_some_iff.1 hr
    exact ⟨text, ⟨r.id, ht⟩, hdec⟩

/-- The ids of the rows ascend. -/
theorem Sound.pairwise_rows (hg : g.Sound) : g.rows.Pairwise fun a b => a.id < b.id := by
  have hrows : ∀ entries : List (String × String), Ascending entries →
      (∀ e ∈ entries, ∀ r, Relay.decoder.run? e.2 = some r → r.id = e.1) →
      ((entries.map (·.2)).filterMap (Relay.decoder.run? ·)).Pairwise fun a b => a.id < b.id := by
    intro entries hasc hid
    rw [List.filterMap_map, List.pairwise_filterMap]
    refine hasc.imp_of_mem fun {a b} ha hb hlt x hx y hy => ?_
    rw [hid a ha x hx, hid b hb y hy]
    exact hlt
  refine hrows _ g.relays.ascending fun e he r hr => ?_
  have hget : g.relays.get? e.1 = some e.2 :=
    (Table.lookup_eq_some_iff_mem g.relays.ascending).mpr he
  exact hg.id_eq (by rw [relay?, hget]; exact hr)

/-! ## Sums over the relays -/

/-- The sum of a weight over all relays. -/
def total (g : Registry) (f : Relay → Nat) : Nat := (g.rows.map f).sum

/-- The sum over all relays as a sum over the table. -/
theorem total_eq_sum (g : Registry) (f : Relay → Nat) :
    g.total f = g.relays.sum fun text => (Relay.decoder.run? text).elim 0 f := by
  unfold total rows Table.sum
  induction g.relays.values with
  | nil => rfl
  | cons text texts ih =>
    cases hr : Relay.decoder.run? text with
    | none => simp [hr, ih]
    | some r => simp [hr, ih]

/-- The weight of what stands under a key. -/
theorem elim_relay? (g : Registry) (id : RelayId) (f : Relay → Nat) :
    (g.relays.get? id).elim 0 (fun text => (Relay.decoder.run? text).elim 0 f) =
      (g.relay? id).elim 0 f := by
  unfold relay?
  cases g.relays.get? id <;> rfl

/-- A written row adds its weight and takes away that of the row it replaces. -/
theorem total_withRow (g : Registry) (id : RelayId) (r : Relay) (f : Relay → Nat) :
    (g.withRow id r).total f + (g.relay? id).elim 0 f = g.total f + f r := by
  have := g.relays.sum_insert (fun text => (Relay.decoder.run? text).elim 0 f) id r.encode.render
  rw [run?_of_decodeRow (decodeRow_encode r)] at this
  rw [total_eq_sum, total_eq_sum, ← elim_relay?]
  exact this

/-- A written row is one row more at most. -/
theorem length_rows_withRow_le (g : Registry) (id : RelayId) (r : Relay) :
    (g.withRow id r).rows.length ≤ g.rows.length + 1 := by
  have hlength : ∀ g : Registry, g.total (fun _ => 1) = g.rows.length := fun g => by simp [total]
  have htotal := g.total_withRow id r fun _ => 1
  rw [hlength, hlength] at htotal
  omega

/-- A removed row takes away its weight. -/
theorem total_withoutRow (g : Registry) (id : RelayId) (f : Relay → Nat) :
    (g.withoutRow id).total f + (g.relay? id).elim 0 f = g.total f := by
  have := g.relays.sum_erase (fun text => (Relay.decoder.run? text).elim 0 f) id
  rw [total_eq_sum, total_eq_sum, ← elim_relay?]
  exact this

end Registry

end RelayFleet
