import Mathlib.Data.Set.Card
import RelayFleet.Proofs.Allocation.Undisturbed
import RelayFleet.Proofs.Registry.Release

/-!
# A release takes effect as a whole

A release of bindings reads the bindings of the listed workloads one after the other and takes away
as it reads. It comes to the same whatever the order of the list and whatever is listed twice
(`Registry.releaseBindings_atomic`): either all listed bindings are read, and those to the relay are
gone and counted once each (`Registry.Removal`), or one of them does not decode, and nothing is gone
at all. A binding that does not decode stops the loop wherever it is listed, because only bindings
that decode are taken away before its turn comes (`Registry.foldlM_releaseBinding_error`).
-/

namespace RelayFleet

/-! ## What stands in a table -/

namespace Table

variable {α : Type}

/-- A filter leaves what satisfies its condition and nothing else. -/
theorem get?_filter (t : Table α) (keep : String × α → Bool) (key : String) :
    (t.filter keep).get? key = (t.get? key).filter fun a => keep (key, a) := by
  refine Option.ext fun a => ?_
  rw [get?, lookup_eq_some_iff_mem (t.filter keep).ascending, Option.filter_eq_some_iff, get?,
    lookup_eq_some_iff_mem t.ascending]
  exact List.mem_filter

/-- No key is there twice. -/
theorem nodup_keys (t : Table α) : (t.entries.map Prod.fst).Nodup :=
  List.pairwise_map.mpr (t.ascending.imp String.ne_of_lt)

end Table

namespace Registry

variable {g : Registry} {id : RelayId} {w : WorkloadId} {workloads : List WorkloadId}
  {text : String}

/-- There is no binding of the workload, or it decodes. -/
def BindingReads (g : Registry) (w : WorkloadId) : Prop := ∃ b, g.getBinding w = .ok b

/-- Those of the workloads that are bound to the relay. -/
def boundAmong (g : Registry) (id : RelayId) (workloads : List WorkloadId) : Set WorkloadId :=
  {w | w ∈ workloads ∧ g.IsBound w id}

/-- A release of the bindings of workloads to a relay that went through. -/
structure Removal (g : Registry) (id : RelayId) (workloads : List WorkloadId) (count : UInt32)
    (g' : Registry) : Prop where
  /-- The bindings to the relay are gone. -/
  gone : ∀ w ∈ g.boundAmong id workloads, g'.bindings.get? w = none
  /-- All others stand as they stood, those that do not decode among them. -/
  kept : ∀ w ∉ g.boundAmong id workloads, g'.bindings.get? w = g.bindings.get? w
  /-- Nothing but bindings is touched. -/
  apart : g' = { g with bindings := g'.bindings }
  /-- So many rows are gone. -/
  rows : g'.bindings.entries.length + (g.boundAmong id workloads).ncard =
    g.bindings.entries.length
  /-- So many are counted, each workload once, in 32 bits. -/
  count_eq : count = .ofNat (g.boundAmong id workloads).ncard
  /-- The count is exact unless it is too great for them. -/
  exact : (g.boundAmong id workloads).ncard < UInt32.size →
    count.toNat = (g.boundAmong id workloads).ncard

/-! ## What a release reads -/

/-- What stands under a key decodes, if anything does, or it does not. -/
theorem reads_or_error (t : Table String) (w : WorkloadId) :
    (∀ text, t.get? w = some text → ∃ b, decodeRow Binding.decoder text = .ok b) ∨
      ∃ text, t.get? w = some text ∧ decodeRow Binding.decoder text = .error .undecodable := by
  unfold decodeRow
  cases t.get? w with
  | none => exact .inl nofun
  | some text =>
    simp only [Option.some.injEq, forall_eq', exists_eq_left']
    cases Binding.decoder.run? text <;> simp

/-- A binding reads if there is none or its text decodes. -/
theorem bindingReads_iff : g.BindingReads w ↔
    ∀ text, g.bindings.get? w = some text → ∃ b, decodeRow Binding.decoder text = .ok b := by
  unfold BindingReads getBinding
  cases g.bindings.get? w with
  | none => simp
  | some text => cases hrow : decodeRow Binding.decoder text <;> simp [hrow]

/-- The listed workloads that are bound to the relay are those whose rows are released. -/
theorem mem_boundAmong : w ∈ g.boundAmong id workloads ↔
    ∃ text, g.bindings.get? w = some text ∧ releases id workloads (w, text) = true := by
  unfold boundAmong IsBound getBinding
  rw [Set.mem_ofPred_eq]
  cases g.bindings.get? w with
  | none => simp
  | some text =>
    simp only [releases, decodeRow, Option.some.injEq, exists_eq_left']
    cases Binding.decoder.run? text <;> simp

/-- What does not decode is not released. -/
theorem releases_of_error (hrow : decodeRow Binding.decoder text = .error .undecodable) :
    releases id workloads (w, text) = false := by
  unfold decodeRow at hrow
  split at hrow
  · cases hrow
  · next hrun => simp [releases, hrun]

/-- What is released depends on which workloads are listed. -/
theorem releases_congr {workloads' : List WorkloadId} (h : ∀ w, w ∈ workloads' ↔ w ∈ workloads) :
    releases id workloads' = releases id workloads := by
  funext e
  simp only [releases, h]

/-! ## What a release does -/

/-- There are as many of these workloads as rows that are released. -/
theorem ncard_boundAmong (g : Registry) (id : RelayId) (workloads : List WorkloadId) :
    (g.boundAmong id workloads).ncard = g.releasedCount id workloads := by
  have hkeys : ((g.bindings.entries.filter (releases id workloads)).map Prod.fst).Nodup :=
    g.bindings.nodup_keys.sublist (List.filter_sublist.map Prod.fst)
  have hset : g.boundAmong id workloads =
      ((g.bindings.entries.filter (releases id workloads)).map Prod.fst).toFinset := by
    ext w
    have hrow (text : String) : g.bindings.get? w = some text ↔ (w, text) ∈ g.bindings.entries :=
      Table.lookup_eq_some_iff_mem g.bindings.ascending
    simp [mem_boundAmong, hrow]
  rw [hset, Set.ncard_coe_finset, List.toFinset_card_of_nodup hkeys, List.length_map,
    releasedCount, List.countP_eq_length_filter]

/-- A release takes away as many rows as it counts. -/
theorem length_released (g : Registry) (id : RelayId) (workloads : List WorkloadId) :
    (g.released id workloads).bindings.entries.length + g.releasedCount id workloads =
      g.bindings.entries.length := by
  have hsplit := g.bindings.entries.length_eq_countP_add_countP (releases id workloads)
  have hleft : (g.released id workloads).bindings.entries.length =
      g.bindings.entries.countP fun e => !releases id workloads e :=
    List.countP_eq_length_filter.symm
  simp only [Bool.not_eq_true, Bool.decide_eq_false] at hsplit
  rw [hleft, releasedCount]
  omega

/-- What is left of the bindings, and how many are gone. -/
theorem removal_released (g : Registry) (id : RelayId) (workloads : List WorkloadId) :
    g.Removal id workloads (.ofNat (g.releasedCount id workloads)) (g.released id workloads) where
  gone w hw := by
    obtain ⟨text, hget, hreleases⟩ := mem_boundAmong.mp hw
    rw [released, Table.get?_filter, hget, Option.filter_some, hreleases]
    rfl
  kept w hw := by
    rw [released, Table.get?_filter]
    cases hget : g.bindings.get? w with
    | none => rfl
    | some text =>
      have hnot : releases id workloads (w, text) = false :=
        Bool.eq_false_iff.mpr fun h => hw (mem_boundAmong.mpr ⟨text, hget, h⟩)
      rw [Option.filter_some, hnot]
      rfl
  apart := rfl
  rows := by rw [ncard_boundAmong, length_released]
  count_eq := by rw [ncard_boundAmong]
  exact hlt := by
    rw [ncard_boundAmong] at hlt ⊢
    exact UInt32.toNat_ofNat_of_lt hlt

/-- A binding that does not decode stops the release. -/
theorem releaseBinding_error {n : UInt32} {t : Table String} (hget : t.get? w = some text)
    (hrow : decodeRow Binding.decoder text = .error .undecodable) :
    releaseBinding id (n, t) w = .error .undecodable := by
  unfold releaseBinding
  rw [hget]
  dsimp only
  rw [hrow]
  rfl

/-- A release of something that does not decode comes to nothing, wherever it is listed: what is
taken away before it decodes, so it is still there when its turn comes. -/
theorem foldlM_releaseBinding_error {n : UInt32} {t : Table String} (hw : w ∈ workloads)
    (hget : t.get? w = some text) (hrow : decodeRow Binding.decoder text = .error .undecodable) :
    workloads.foldlM (releaseBinding id) (n, t) = .error .undecodable := by
  induction workloads generalizing n t with
  | nil => cases hw
  | cons w' workloads ih =>
    rw [List.foldlM_cons]
    rcases reads_or_error t w' with hread | ⟨text', hget', hrow'⟩
    · have hmem : w ∈ workloads := by
        refine (List.mem_cons.mp hw).resolve_left ?_
        rintro rfl
        obtain ⟨b, hb⟩ := hread text hget
        rw [hrow] at hb
        cases hb
      rw [releaseBinding_eq hread]
      refine ih hmem ?_
      rw [Table.get?_filter, hget, Option.filter_some, releases_of_error hrow]
      rfl
    · rw [releaseBinding_error hget' hrow']
      rfl

/-- A release in which everything decodes. -/
theorem releaseBindings_of_reads (h : ∀ w ∈ workloads, g.BindingReads w) :
    g.releaseBindings id workloads =
      (.ok (.ofNat (g.releasedCount id workloads)), g.released id workloads) :=
  releaseBindings_eq fun w hw => bindingReads_iff.mp (h w hw)

/-- A release in which something does not decode. -/
theorem releaseBindings_of_not_reads (hw : w ∈ workloads) (h : ¬ g.BindingReads w) :
    g.releaseBindings id workloads = (.error .undecodable, g) := by
  rw [bindingReads_iff] at h
  obtain ⟨text, hget, hrow⟩ := (reads_or_error g.bindings w).resolve_left h
  rw [releaseBindings, foldlM_releaseBinding_error hw hget hrow]

/-- What decodes does so after a release. -/
theorem BindingReads.released (h : g.BindingReads w) (id : RelayId) (workloads : List WorkloadId) :
    (g.released id workloads).BindingReads w := by
  rw [bindingReads_iff] at h ⊢
  intro text hget
  rw [Registry.released, Table.get?_filter, Option.filter_eq_some_iff] at hget
  exact h text hget.1

/-- **A release takes effect as a whole, whatever the order of its list.** Take any bindings, even
if some do not decode, any relay and any list of workloads. If each listed workload has no binding
or one that decodes, then the bindings of listed workloads to the relay are gone, the answer says
how many these are, each counted once, and nothing else has changed (`Registry.Removal`); the same
release once more finds none. If a listed binding does not decode then the release fails and nothing
has changed at all. In either case a list of the same workloads in another order, or with other
repetitions, gives the same. -/
theorem releaseBindings_atomic (g : Registry) (id : RelayId) (workloads : List WorkloadId) :
    ((∀ w ∈ workloads, g.BindingReads w) →
      ∃ count g', g.releaseBindings id workloads = (.ok count, g') ∧
        g.Removal id workloads count g' ∧ g'.releaseBindings id workloads = (.ok 0, g')) ∧
    ((∃ w ∈ workloads, ¬ g.BindingReads w) →
      g.releaseBindings id workloads = (.error .undecodable, g)) ∧
    ∀ workloads', (∀ w, w ∈ workloads' ↔ w ∈ workloads) →
      g.releaseBindings id workloads' = g.releaseBindings id workloads := by
  refine ⟨fun h => ?_, fun ⟨w, hw, h⟩ => releaseBindings_of_not_reads hw h,
    fun workloads' hsame => ?_⟩
  · have hagain : ∀ w ∈ workloads, (g.released id workloads).BindingReads w :=
      fun w hw => (h w hw).released id workloads
    refine ⟨_, _, releaseBindings_of_reads h, g.removal_released id workloads, ?_⟩
    rw [releaseBindings_of_reads hagain, releasedCount_released, released_released]
    rfl
  · by_cases h : ∀ w ∈ workloads, g.BindingReads w
    · have h' : ∀ w ∈ workloads', g.BindingReads w := fun w hw => h w ((hsame w).mp hw)
      rw [releaseBindings_of_reads h, releaseBindings_of_reads h', releasedCount, releasedCount,
        released, released, releases_congr hsame]
    · push Not at h
      obtain ⟨w, hw, hfails⟩ := h
      rw [releaseBindings_of_not_reads hw hfails,
        releaseBindings_of_not_reads ((hsame w).mpr hw) hfails]

/-- Two workloads on one relay, a third one on another, and a binding that was cut off. -/
def damaged : Registry :=
  let g := (empty.putBinding ⟨"v", some "relay-1", 0⟩).putBinding ⟨"w", some "relay-1", 0⟩
  let g := g.putBinding ⟨"x", some "relay-2", 0⟩
  { g with bindings := g.bindings.insert "y" "\x7b" }

/-- The other bindings decode. -/
theorem bindingReads_damaged {w : WorkloadId} (hw : w ≠ "y") : damaged.BindingReads w := by
  rw [bindingReads_iff]
  intro text hget
  simp only [damaged, putBinding, Table.get?_insert, if_neg hw] at hget
  repeat' split at hget
  all_goals cases hget
  all_goals exact ⟨_, Binding.decodeRow_encode _⟩

/-- One of the two workloads is released, which is listed twice, or none, because the binding that
was cut off is listed as well. -/
theorem releaseBindings_atomic_damaged :
    (∀ w ∈ ["x", "v", "v", "z"], damaged.BindingReads w) ∧ ¬ damaged.BindingReads "y" ∧
    (∃ g', damaged.releaseBindings "relay-1" ["x", "v", "v", "z"] = (.ok 1, g') ∧
      damaged.Removal "relay-1" ["x", "v", "v", "z"] 1 g' ∧
      g'.releaseBindings "relay-1" ["x", "v", "v", "z"] = (.ok 0, g')) ∧
    damaged.releaseBindings "relay-1" ["v", "y"] = (.error .undecodable, damaged) ∧
    damaged.releaseBindings "relay-1" ["v", "z", "x"] =
      damaged.releaseBindings "relay-1" ["x", "v", "v", "z"] := by
  have hreads : ∀ w ∈ ["x", "v", "v", "z"], damaged.BindingReads w := by
    intro w hw
    refine bindingReads_damaged ?_
    rintro rfl
    exact absurd hw (by decide)
  have hfails : ¬ damaged.BindingReads "y" := by
    rintro ⟨b, hb⟩
    have hcut : damaged.getBinding "y" = .error .undecodable := by decide
    rw [hcut] at hb
    cases hb
  have hsame : ∀ w, w ∈ ["v", "z", "x"] ↔ w ∈ ["x", "v", "v", "z"] := by
    intro w
    simp only [List.mem_cons, List.not_mem_nil, or_false]
    tauto
  obtain ⟨hwhole, -, horder⟩ := releaseBindings_atomic damaged "relay-1" ["x", "v", "v", "z"]
  obtain ⟨count, g', heq, hremoval, hagain⟩ := hwhole hreads
  have hcount : damaged.releasedCount "relay-1" ["x", "v", "v", "z"] = 1 := by
    change List.countP _ [("v", _), ("w", _), ("x", _), ("y", _)] = 1
    simp [releases, run?_of_decodeRow (Binding.decodeRow_encode _)]
  have hfound := heq.symm.trans (releaseBindings_of_reads hreads)
  rw [hcount] at hfound
  obtain rfl : count = 1 := Except.ok.inj (Prod.mk.inj hfound).1
  obtain ⟨-, hnothing, -⟩ := releaseBindings_atomic damaged "relay-1" ["v", "y"]
  exact ⟨hreads, hfails, ⟨g', heq, hremoval, hagain⟩, hnothing ⟨"y", by simp, hfails⟩,
    horder _ hsame⟩

end Registry

end RelayFleet
