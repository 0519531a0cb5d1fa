import RelayFleet.Proofs.Registry.Rows

/-!
# Releasing bindings

A release goes through workloads one after the other, which may be listed more than once, and takes
the binding of each away if it is to the relay at that time. Where the bindings decode this is one
filter of the table: it takes away the bindings to the relay of the listed workloads, and counts
each of them once (`Registry.releaseBindings_eq`).
-/

namespace RelayFleet

/-! ## Filters of a table -/

namespace Table

variable {α : Type} {t : Table α} {keep : String × α → Bool} {key : String} {a : α}

/-- The table with those entries that satisfy a condition. -/
def filter (t : Table α) (keep : String × α → Bool) : Table α where
  entries := t.entries.filter keep
  ascending := t.ascending.filter _

/-- Tables with the same entries are the same. -/
theorem eq_of_entries_eq {t' : Table α} (h : t'.entries = t.entries) : t' = t := by
  cases t
  cases t'
  cases h
  rfl

/-- A filter that every entry satisfies leaves the table. -/
theorem filter_eq_self (h : ∀ e ∈ t.entries, keep e = true) : t.filter keep = t :=
  eq_of_entries_eq (List.filter_eq_self.mpr h)

/-- Of two filters one after the other both have to be satisfied. -/
theorem filter_filter (t : Table α) (keep keep' : String × α → Bool) :
    (t.filter keep).filter keep' = t.filter fun e => keep' e && keep e :=
  eq_of_entries_eq List.filter_filter

/-- The entry under a key is there beside those that are left when the key is erased. -/
theorem perm_cons_erase (h : t.get? key = some a) :
    t.entries.Perm ((key, a) :: (t.erase key).entries) := by
  have hperm : ∀ {entries : List (String × α)}, Ascending entries →
      entries.lookup key = some a → entries.Perm ((key, a) :: entries.filter (·.1 ≠ key)) := by
    intro entries hasc hlookup
    induction entries with
    | nil => cases hlookup
    | cons x rest ih =>
      obtain ⟨k, b⟩ := x
      obtain ⟨hk, hrest⟩ := List.pairwise_cons.mp hasc
      rw [lookup_entry_cons] at hlookup
      by_cases heq : key = k
      · subst heq
        rw [if_pos rfl] at hlookup
        cases hlookup
        rw [List.filter_cons_of_neg (by simp), List.filter_eq_self.mpr]
        exact fun e he => by simpa using (String.ne_of_lt (hk e he)).symm
      · rw [if_neg heq] at hlookup
        rw [List.filter_cons_of_pos (by simpa using Ne.symm heq)]
        exact ((ih hrest hlookup).cons _).trans (.swap ..)
  exact hperm t.ascending h

end Table

/-! ## Releases -/

namespace Registry

/-- Every binding decodes. -/
def BindingsReadable (g : Registry) : Prop :=
  ∀ w text, g.bindings.get? w = some text → ∃ b, decodeRow Binding.decoder text = .ok b

/-- The entry is the binding of one of the workloads, and to the relay. -/
def releases (id : RelayId) (workloads : List WorkloadId) (e : String × String) : Bool :=
  decide (e.1 ∈ workloads) && (Binding.decoder.run? e.2).any (·.relayId = some id)

/-- How many bindings a release takes away. -/
def releasedCount (g : Registry) (id : RelayId) (workloads : List WorkloadId) : Nat :=
  g.bindings.entries.countP (releases id workloads)

/-- The registry without the bindings of the workloads that are to the relay. -/
def released (g : Registry) (id : RelayId) (workloads : List WorkloadId) : Registry :=
  { g with bindings := g.bindings.filter fun e => !releases id workloads e }

variable {g : Registry} {t : Table String} {id : RelayId} {w : WorkloadId}
  {workloads : List WorkloadId} {e : String × String}

/-- A workload that comes first may be released or one of those after it. -/
theorem releases_cons : releases id (w :: workloads) =
    fun e => releases id [w] e || releases id workloads e := by
  funext e
  unfold releases
  rw [← Bool.and_or_distrib_right]
  simp

/-- Where nothing is to be released nothing is counted or taken away. -/
theorem releases_none (h : ∀ e ∈ t.entries, releases id workloads e = false) (n : UInt32) :
    (n + UInt32.ofNat (t.entries.countP (releases id workloads)),
      t.filter fun e => !releases id workloads e) = (n, t) := by
  rw [List.countP_eq_zero.mpr fun e he => by simp [h e he],
    Table.filter_eq_self fun e he => by simp [h e he]]
  exact congrArg (·, t) (UInt32.add_zero n)

/-- What is not to the relay is not released. -/
theorem releases_singleton_of_get? {text : String} {b : Binding} (he : e ∈ t.entries)
    (htext : t.get? w = some text) (hb : decodeRow Binding.decoder text = .ok b) :
    releases id [w] e = (decide (e.1 = w) && decide (b.relayId = some id)) := by
  have hrun := run?_of_decodeRow hb
  unfold releases
  by_cases hw : e.1 = w
  · have hget : t.get? w = some e.2 := hw ▸ (Table.lookup_eq_some_iff_mem t.ascending).mpr he
    rw [htext] at hget
    cases hget
    simp [hw, hrun]
  · simp [hw]

/-- A release of one workload takes its binding away if it is to the relay. -/
theorem releaseBinding_eq
    (hw : ∀ text, t.get? w = some text → ∃ b, decodeRow Binding.decoder text = .ok b)
    (n : UInt32) :
    releaseBinding id (n, t) w = .ok (n + .ofNat (t.entries.countP (releases id [w])),
      t.filter fun e => !releases id [w] e) := by
  unfold releaseBinding
  split
  · next htext =>
    rw [releases_none]
    intro e he
    have hne : e.1 ≠ w := by
      rintro rfl
      rw [Table.get?, (Table.lookup_eq_some_iff_mem t.ascending).mpr he] at htext
      cases htext
    simp [releases, hne]
  · next text htext =>
    obtain ⟨b, hb⟩ := hw text htext
    have hreleases : ∀ e ∈ t.entries, releases id [w] e =
        (decide (e.1 = w) && decide (b.relayId = some id)) :=
      fun e he => releases_singleton_of_get? he htext hb
    rw [hb]
    by_cases hid : b.relayId = some id
    · have hcount : t.entries.countP (releases id [w]) = 1 := by
        rw [List.countP_congr fun e he => by rw [hreleases e he],
          (Table.perm_cons_erase htext).countP_eq]
        simp [hid, Table.erase, List.countP_eq_zero]
      have hfilter : (t.filter fun e => !releases id [w] e) = t.erase w :=
        Table.eq_of_entries_eq (List.filter_congr fun e he => by simp [hreleases e he, hid])
      rw [hcount, hfilter]
      show Except.ok (if b.relayId = some id then _ else _) = _
      rw [if_pos hid]
      rfl
    · rw [releases_none fun e he => by simp [hreleases e he, hid]]
      show Except.ok (if b.relayId = some id then _ else _) = _
      rw [if_neg hid]

/-- What satisfies one of two conditions satisfies the first, or it does not and satisfies the
second. -/
theorem countP_or {α : Type} (p q : α → Bool) (l : List α) :
    l.countP (fun a => p a || q a) = l.countP p + (l.filter fun a => !p a).countP q := by
  induction l with
  | nil => rfl
  | cons a l ih => cases hp : p a <;> cases hq : q a <;> simp [hp, hq, ih] <;> omega

/-- A release takes the bindings to the relay of the listed workloads away and counts them, whatever
the order in which they are listed and however often. -/
theorem releaseBindings_eq
    (hw : ∀ w ∈ workloads, ∀ text, g.bindings.get? w = some text →
      ∃ b, decodeRow Binding.decoder text = .ok b) :
    g.releaseBindings id workloads =
      (.ok (.ofNat (g.releasedCount id workloads)), g.released id workloads) := by
  have hfold : ∀ (ws : List WorkloadId) (n : UInt32) (t : Table String),
      (∀ w ∈ ws, ∀ text, t.get? w = some text → ∃ b, decodeRow Binding.decoder text = .ok b) →
      ws.foldlM (releaseBinding id) (n, t) =
        .ok (n + .ofNat (t.entries.countP (releases id ws)),
          t.filter fun e => !releases id ws e) := by
    intro ws
    induction ws with
    | nil =>
      intro n t _
      rw [releases_none fun e _ => by simp [releases]]
      rfl
    | cons w ws ih =>
      intro n t hread
      obtain ⟨hone, hrest⟩ := List.forall_mem_cons.mp hread
      have hleft : ∀ w' ∈ ws, ∀ text, (t.filter fun e => !releases id [w] e).get? w' = some text →
          ∃ b, decodeRow Binding.decoder text = .ok b := by
        intro w' hw' text htext
        have hmem := (Table.lookup_eq_some_iff_mem (Table.ascending _)).mp htext
        exact hrest w' hw' text
          ((Table.lookup_eq_some_iff_mem t.ascending).mpr (List.mem_filter.mp hmem).1)
      rw [List.foldlM_cons, releaseBinding_eq hone]
      refine (ih _ _ hleft).trans ?_
      have hcount : t.entries.countP (releases id (w :: ws)) = t.entries.countP (releases id [w]) +
          ((t.filter fun e => !releases id [w] e).entries).countP (releases id ws) := by
        rw [releases_cons]
        exact countP_or ..
      have hfilter : (t.filter fun e => !releases id (w :: ws) e) =
          (t.filter fun e => !releases id [w] e).filter fun e => !releases id ws e := by
        rw [Table.filter_filter, releases_cons]
        simp only [Bool.not_or, Bool.and_comm]
      rw [hcount, hfilter, UInt32.ofNat_add, UInt32.add_assoc]
  rw [releaseBindings, hfold workloads 0 g.bindings hw, UInt32.zero_add]
  rfl

/-- Where every binding decodes any release succeeds. -/
theorem BindingsReadable.releaseBindings (h : g.BindingsReadable) (id : RelayId)
    (workloads : List WorkloadId) :
    g.releaseBindings id workloads =
      (.ok (.ofNat (g.releasedCount id workloads)), g.released id workloads) :=
  releaseBindings_eq fun w _ => h w

/-- No workload, no release. -/
theorem released_nil (g : Registry) (id : RelayId) : g.released id [] = g := by
  unfold released
  rw [Table.filter_eq_self fun e _ => by simp [releases]]

/-- No workload, no binding that is released. -/
theorem releasedCount_nil (g : Registry) (id : RelayId) : g.releasedCount id [] = 0 :=
  List.countP_eq_zero.mpr fun e _ => by simp [releases]

/-- What was released is not released again. -/
theorem releasedCount_released (g : Registry) (id : RelayId) (workloads : List WorkloadId) :
    (g.released id workloads).releasedCount id workloads = 0 := by
  refine List.countP_eq_zero.mpr fun e he => ?_
  have hkept := (List.mem_filter.mp he).2
  simpa using hkept

/-- A second release changes nothing. -/
theorem released_released (g : Registry) (id : RelayId) (workloads : List WorkloadId) :
    (g.released id workloads).released id workloads = g.released id workloads := by
  unfold released
  rw [Table.filter_filter]
  simp only [Bool.and_self]

/-- The bindings that are left decode. -/
theorem BindingsReadable.released (h : g.BindingsReadable) (id : RelayId)
    (workloads : List WorkloadId) : (g.released id workloads).BindingsReadable := by
  intro w text htext
  have hmem := (Table.lookup_eq_some_iff_mem (Table.ascending _)).mp htext
  exact h w text
    ((Table.lookup_eq_some_iff_mem g.bindings.ascending).mpr (List.mem_filter.mp hmem).1)

end Registry

end RelayFleet
