import Mathlib.Algebra.BigOperators.Ring.List
import Mathlib.Algebra.Order.BigOperators.Group.List
import Mathlib.Data.List.Sort
import RelayFleet.Proofs.Registry.Issuance
import RelayFleet.Proofs.Scan.Spare

/-!
# The rows of a zone

What is decided about a zone is decided from its rows, `Registry.zoneRows`. In a sound registry they
are what stands under the keys (`Sound.zoneRows_congr`), so a write changes the rows of one zone
only. While a zone has fewer relays than its counters can count, these are the numbers of its relays
(`Registry.toNat_runningCount_of_lt` and those that follow it). A new relay replaces none where no
row stands under an id that is still to be issued, and operations never leave one there
(`Run.noneAhead`).
-/

namespace RelayFleet

namespace Registry

variable {g g' : Registry} {zone : ZoneId} {id : RelayId} {r r' : Relay}

/-- The relays of a zone, in the order of their ids. -/
def zoneRows (g : Registry) (zone : ZoneId) : List Relay := g.rows.filter (·.zoneId == zone)

/-- The counters of a zone are those of its rows. -/
theorem capacityOf_congr (h : g'.zoneRows zone = g.zoneRows zone) :
    g'.capacityOf zone = g.capacityOf zone :=
  congrArg (ZoneCapacity.ofRelays zone) h

/-- A sum over the relays of a zone is one over its rows. -/
theorem zoneTotal_eq_sum (g : Registry) (zone : ZoneId) (w : Relay → Nat) :
    g.zoneTotal zone w = ((g.zoneRows zone).map w).sum :=
  (g.sum_map_filter zone w).symm

/-- The same rows have the same sums. -/
theorem zoneTotal_congr_rows (h : g'.zoneRows zone = g.zoneRows zone) (w : Relay → Nat) :
    g'.zoneTotal zone w = g.zoneTotal zone w := by
  rw [zoneTotal_eq_sum, h, zoneTotal_eq_sum]

/-- The rows of a zone are relays that stand under their ids. -/
theorem Sound.mem_zoneRows (hg : g.Sound) :
    r ∈ g.zoneRows zone ↔ g.relay? r.id = some r ∧ r.zoneId = zone := by
  rw [zoneRows, List.mem_filter, hg.mem_rows, beq_iff_eq]

/-- What stands under the keys are the rows. -/
theorem Sound.zoneRows_congr (hg : g.Sound) (hg' : g'.Sound)
    (h : ∀ k r, r.zoneId = zone → (g'.relay? k = some r ↔ g.relay? k = some r)) :
    g'.zoneRows zone = g.zoneRows zone := by
  let before (a b : Relay) : Prop := a.id < b.id
  have : Std.Antisymm before := ⟨fun _ _ h h' => absurd (String.lt_trans h h') (String.lt_irrefl _)⟩
  have : Std.Irrefl before := ⟨fun _ => String.lt_irrefl _⟩
  refine List.Pairwise.eq_of_mem_iff (r := before) (hg'.pairwise_rows.filter _)
    (hg.pairwise_rows.filter _) fun r => ?_
  refine Iff.trans hg'.mem_zoneRows (Iff.trans ?_ hg.mem_zoneRows.symm)
  exact and_congr_left fun hr => h r.id r hr

/-- Where the rows of no zone change, no relay does. -/
theorem Sound.relay?_congr_zoneRows (hg : g.Sound) (hg' : g'.Sound)
    (h : ∀ zone, g'.zoneRows zone = g.zoneRows zone) (k : RelayId) :
    g'.relay? k = g.relay? k := by
  have hmem : ∀ {a b : Registry}, a.Sound → b.Sound → (∀ zone, a.zoneRows zone = b.zoneRows zone) →
      ∀ r, a.relay? k = some r → b.relay? k = some r := by
    intro a b ha hb heq r hr
    have hid := ha.id_eq hr
    rw [← hid] at hr ⊢
    have hrow := ha.mem_zoneRows.mpr ⟨hr, rfl⟩
    rw [heq] at hrow
    exact (hb.mem_zoneRows.mp hrow).1
  refine Option.ext fun r => ⟨hmem hg' hg h r, hmem hg hg' (fun zone => (h zone).symm) r⟩

/-- Where no row changes, those of a zone do not. -/
theorem zoneRows_congr_relays (h : g'.relays = g.relays) (zone : ZoneId) :
    g'.zoneRows zone = g.zoneRows zone := by
  rw [zoneRows, rows, h, zoneRows, rows]

/-- Writing a row of a zone leaves the others. -/
theorem Sound.zoneRows_withRow (hg : g.Sound) (hid : r'.id = id) (hne : r'.zoneId ≠ zone)
    (hold : ∀ r, g.relay? id = some r → r.zoneId ≠ zone) :
    (g.withRow id r').zoneRows zone = g.zoneRows zone := by
  refine hg.zoneRows_congr (hg.withRow hid) fun k r hr => ?_
  rw [relay?_withRow]
  split
  · next hk =>
    subst hk
    refine ⟨?_, fun h => absurd hr (hold r h)⟩
    rintro ⟨⟩
    exact absurd hr hne
  · rfl

/-- Removing a row of a zone leaves the others. -/
theorem Sound.zoneRows_withoutRow (hg : g.Sound)
    (hold : ∀ r, g.relay? id = some r → r.zoneId ≠ zone) :
    (g.withoutRow id).zoneRows zone = g.zoneRows zone := by
  refine hg.zoneRows_congr hg.withoutRow fun k r hr => ?_
  rw [relay?_withoutRow]
  split
  · next hk =>
    subst hk
    exact ⟨nofun, fun h => absurd hr (hold r h)⟩
  · rfl

end Registry

/-! ## Counters that are exact -/

namespace Relay

/-- Running relays are not destroyed. -/
theorem running_le_live (r : Relay) : r.running ≤ r.live := by
  unfold running live
  cases r.state <;> simp [RelayState.isTerminal]

/-- Relays that are starting or stopping are not destroyed. -/
theorem transitional_le_live (r : Relay) : r.transitional ≤ r.live := by
  unfold transitional live
  cases r.state <;> simp [RelayState.isTerminal, RelayState.isTransitional]

/-- A running relay has no more sessions than it can report. -/
theorem sessions_le (r : Relay) : r.sessions ≤ r.running * (2 ^ 32 - 1) := by
  unfold sessions running
  have hlt := r.activeSessions.toNat_lt
  split <;> omega

end Relay

namespace Registry

variable {g : Registry} {zone : ZoneId}

/-- A sum of smaller weights is not greater. -/
theorem zoneTotal_mono (g : Registry) (zone : ZoneId) {w w' : Relay → Nat}
    (h : ∀ r, w r ≤ w' r) : g.zoneTotal zone w ≤ g.zoneTotal zone w' := by
  rw [zoneTotal_eq_sum, zoneTotal_eq_sum]
  exact List.sum_le_sum fun r _ => h r

/-- The relays of a zone that run are counted. -/
theorem toNat_runningCount_of_lt (h : g.zoneTotal zone Relay.live < 2 ^ 32) :
    (g.capacityOf zone).runningCount.toNat = g.zoneTotal zone Relay.running := by
  rw [toNat_runningCount]
  exact Nat.mod_eq_of_lt (Nat.lt_of_le_of_lt (g.zoneTotal_mono zone Relay.running_le_live) h)

/-- The relays of a zone that are starting or stopping are counted. -/
theorem toNat_transitionalCount_of_lt (h : g.zoneTotal zone Relay.live < 2 ^ 32) :
    (g.capacityOf zone).transitionalCount.toNat = g.zoneTotal zone Relay.transitional := by
  rw [capacityOf, ZoneCapacity.transitionalCount_ofRelays, sum_map_filter]
  exact Nat.mod_eq_of_lt (Nat.lt_of_le_of_lt (g.zoneTotal_mono zone Relay.transitional_le_live) h)

/-- The relays of a zone that are not destroyed are counted. -/
theorem toNat_totalCount_of_lt (h : g.zoneTotal zone Relay.live < 2 ^ 32) :
    (g.capacityOf zone).totalCount.toNat = g.zoneTotal zone Relay.live := by
  rw [capacityOf, ZoneCapacity.totalCount_ofRelays, sum_map_filter]
  exact Nat.mod_eq_of_lt h

/-- The sessions of a zone are counted. -/
theorem toNat_activeSessions_of_lt (h : g.zoneTotal zone Relay.live < 2 ^ 32) :
    (g.capacityOf zone).activeSessions.toNat = g.zoneTotal zone Relay.sessions := by
  rw [toNat_activeSessions]
  refine Nat.mod_eq_of_lt ?_
  have hrunning := g.zoneTotal_mono zone Relay.running_le_live
  have hsessions := g.zoneTotal_mono zone Relay.sessions_le
  rw [zoneTotal_eq_sum g zone fun r => r.running * _, List.sum_map_mul_right,
    ← zoneTotal_eq_sum] at hsessions
  omega

/-! ## Ids that are still to be issued -/

/-- No relay stands under an id that is still to be issued. -/
def NoneAhead (g : Registry) : Prop := ∀ n, g.sequence < n → g.relay? (relayId n) = none

variable {g' : Registry} {id : RelayId} {r r' : Relay}

/-- Where all ids were issued none is still to be issued. -/
theorem Issued.noneAhead (h : g.Issued) : g.NoneAhead := by
  intro n hn
  by_contra hne
  obtain ⟨k, hk, heq⟩ := h _ hne
  exact UInt64.not_le.mpr hn (relayId_injective heq ▸ hk)

/-- Issuing an id leaves the rows. -/
@[simp]
theorem relay?_issued (g : Registry) (k : RelayId) : g.nextRelayId.2.relay? k = g.relay? k :=
  relay?_congr rfl k

/-- Every id that is issued is another one. -/
theorem sequence_issued_ne (g : Registry) : g.nextRelayId.2.sequence ≠ g.sequence := by
  intro heq
  have hnat := congrArg UInt64.toNat heq
  simp only [nextRelayId, UInt64.toNat_add] at hnat
  have hlt := g.sequence.toNat_lt
  have hone : (1 : UInt64).toNat = 1 := rfl
  omega

/-- No relay stands under the id that is issued next. -/
theorem NoneAhead.relay?_nextRelayId (h : g.NoneAhead) (hroom : g.sequence.toNat + 1 < 2 ^ 64) :
    g.relay? g.nextRelayId.1 = none := by
  refine h _ (UInt64.lt_iff_toNat_lt.mpr ?_)
  rw [show (g.sequence + 1).toNat = _ from toNat_sequence_nextRelayId hroom]
  exact Nat.lt_succ_self _

/-- A registry with the same rows, or fewer, and later ids. -/
theorem NoneAhead.mono (h : g.NoneAhead) (hseq : g.sequence ≤ g'.sequence)
    (hrelays : ∀ k, g.relay? k = none → g'.relay? k = none) : g'.NoneAhead :=
  fun n hn => hrelays _ (h n (UInt64.lt_of_le_of_lt hseq hn))

/-- A row that is written over. -/
theorem NoneAhead.withRow (h : g.NoneAhead) (hr : g.relay? id = some r) :
    (g.withRow id r').NoneAhead := by
  refine h.mono (UInt64.le_refl _) fun k hk => ?_
  rw [relay?_withRow, if_neg, hk]
  rintro rfl
  rw [hk] at hr
  cases hr

/-- A row that is removed. -/
theorem NoneAhead.withoutRow (h : g.NoneAhead) : (g.withoutRow id).NoneAhead := by
  refine h.mono (UInt64.le_refl _) fun k hk => ?_
  rw [relay?_withoutRow, hk, ite_self]

/-- An id that is issued. -/
theorem NoneAhead.nextRelayId (h : g.NoneAhead) (hroom : g.sequence.toNat + 1 < 2 ^ 64) :
    g.nextRelayId.2.NoneAhead := by
  refine h.mono (UInt64.le_iff_toNat_le.mpr ?_) fun k hk => (g.relay?_issued k).trans hk
  rw [toNat_sequence_nextRelayId hroom]
  exact Nat.le_succ _

/-- A row under the id that was issued. -/
theorem NoneAhead.withRow_nextRelayId (h : g.NoneAhead) (hroom : g.sequence.toNat + 1 < 2 ^ 64) :
    (g.nextRelayId.2.withRow g.nextRelayId.1 r).NoneAhead := by
  intro n hn
  have hnew := h.nextRelayId hroom n hn
  rw [relay?_withRow, if_neg, hnew]
  intro heq
  rw [relayId_injective heq] at hn
  exact UInt64.lt_irrefl _ hn

end Registry

/-- Operations leave no relay under an id that is still to be issued, as long as there are ids
left. -/
theorem Run.noneAhead {ι : Type} [DecidableEq ι] {calls : ι → Operation}
    {h : List (Moment ι Outcome)} {s : System ι Outcome}
    (run : Run (System.start .empty fun i => (calls i).program) h s) (hids : IdsLast .empty h) :
    s.registry.Sound ∧ s.registry.NoneAhead := by
  have hissued : Registry.empty.Issued := fun id hid => absurd (Registry.relay?_empty id) hid
  obtain ⟨_, issuing, -⟩ := run.issuing Registry.sound_empty hissued hids
  exact ⟨issuing.sound, issuing.numbered.issued.noneAhead⟩

end RelayFleet
